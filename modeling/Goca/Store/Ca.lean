import Goca.Store.Statements

/-!
# Package store: authorities and certificates

The functions of the store over the CA tables, each a program of its statements. A function that
reads one row turns `sql.ErrNoRows` into `ErrNotFound`.
-/

set_option autoImplicit false

namespace Goca.Store

open Go (Time)
open Goca.Pki (Fingerprint)
open Interleave (Act.failIf)

/-- The row of a query, or `ErrNotFound`. -/
def row {α : Type} : Except Go.Error (Option α) → Except Go.Error α
  | .ok (some a) => .ok a
  | .ok none => .error .notFound
  | .error e => .error e

/-- An update that must find its row. -/
def affected : Except Go.Error Nat → Except Go.Error Unit
  | .ok 0 => .error .notFound
  | .ok _ => .ok ()
  | .error e => .error e

/-- `nz` returns the text, or a default when it is empty. -/
def nz (v default : String) : String := if Go.trimSpace v = "" then default else v

/-! ## Authorities -/

/-- `GetCA` fetches a CA by ID. -/
def getCA (id : Nat) : Handler Go.Error CA := (ca (.selectCA id)).mapResult row

/-- `GetCABySlug` fetches a CA by its URL-safe slug. -/
def getCABySlug (slug : String) : Handler Go.Error CA := (ca (.selectCABySlug slug)).mapResult row

/-- `DefaultCA` returns the CA marked default, among those that can issue, or the oldest. -/
def defaultCA : Handler Go.Error CA := (ca .selectDefaultCA).mapResult row

/-- `GetCAByRef` resolves a CA by numeric ID, slug or exact name. -/
def getCAByRef (ref : String) : Handler Go.Error CA :=
  let ref := Go.trimSpace ref
  if ref = "" then defaultCA else (ca (.selectCAByRef ref)).mapResult row

/-- `CountIssuingCAs` counts the authorities that can sign something. -/
def countIssuingCAs : Handler Go.Error Nat := ca .countIssuingCAs

/-- `ListCAs` returns every CA. -/
def listCAs : Handler Go.Error (List CA) := ca .listCAs

/-- The default marker of a CA about to be stored: the first one that can issue takes it. -/
def markDefault (c : CA) : Handler Go.Error CA :=
  if c.hasKey = true ∧ c.status = .active then do
    let n ← countIssuingCAs.attempt
    pure (match n with
      | .ok 0 => { c with isDefault := true }
      | _ => c)
  else pure c

/-- `CreateCA` inserts a CA and returns it with its assigned ID. -/
def createCA (c : CA) : Handler Go.Error CA := do
  let c ← markDefault c
  let id ← (ca (.insertCA c)).mapError fun e => .wrap "insert CA: " e ""
  getCA id

/-- `SetDefaultCA` marks one CA as the issuance default. -/
def setDefaultCA (id : Nat) : Handler Go.Error Unit := ca (.setDefaultCA id)

/-- `SetCAStatus` enables or disables a CA for further issuance. -/
def setCAStatus (id : Nat) (status : CAStatus) : Handler Go.Error Unit :=
  ca (.setCAStatus id status)

/-- `NextCRLNumber` increments and returns the CRL counter for a CA, in one statement. -/
def nextCRLNumber (id : Nat) : Handler Go.Error Nat := (ca (.nextCRLNumber id)).mapResult row

/-- `CompleteCA` fills in the certificate of a pending subordinate CA. -/
def completeCA (id : Nat) (c : CA) : Handler Go.Error Unit :=
  (ca (.completeCA id c)).mapResult affected

/-- `FindCABySubjectKeyID` locates a CA by its subject key identifier. -/
def findCABySubjectKeyID (ski : String) : Handler Go.Error CA :=
  if ski = "" then throw .notFound else (ca (.selectCABySubjectKeyID ski)).mapResult row

/-- `FindCABySubject` locates a CA by its distinguished name. -/
def findCABySubject (subject : String) : Handler Go.Error CA :=
  (ca (.selectCABySubject subject)).mapResult row

/-- `FindCAByFingerprint` locates a CA by its fingerprint. -/
def findCAByFingerprint (fp : Fingerprint) : Handler Go.Error CA :=
  (ca (.selectCAByFingerprint fp)).mapResult row

/-- `ChildCAs` lists the authorities directly beneath one CA. -/
def childCAs (parentID : Nat) : Handler Go.Error (List CA) := ca (.childCAs parentID)

/-! ## Certificates -/

/-- `GetCertificate` fetches one certificate by ID. -/
def getCertificate (id : Nat) : Handler Go.Error Certificate :=
  (ca (.selectCertificate id)).mapResult row

/-- `CreateCertificate` stores a newly issued certificate. -/
def createCertificate (c : Certificate) : Handler Go.Error Certificate := do
  let createdAt ← now
  let c := { c with
    createdAt := if c.createdAt = Time.zero then createdAt else c.createdAt
    profile := nz c.profile "server" }
  let id ← (ca (.insertCertificate c)).mapError fun e => .wrap "insert certificate: " e ""
  getCertificate id

/-- `GetCertificateBySerial` finds a certificate by its hex serial. -/
def getCertificateBySerial [Go.Runtime] (serial : String) : Handler Go.Error Certificate :=
  (ca (.selectCertificateBySerial
    (Go.toUpper (Go.replaceRune (Go.trimSpace serial) ':' [])))).mapResult row

/-- `SearchCertificates` returns a page of the matches and how many there are. -/
def searchCertificates (f : CertFilter) : Handler Go.Error (List Certificate × Nat) := do
  let t ← now
  let total ← ca (.countCertificates f t)
  let page ← ca (.searchCertificates f t)
  pure (page, total)

/-- `RevokeCertificate` marks a certificate revoked with an RFC 5280 reason code. -/
def revokeCertificate (id : Nat) (reason : Int) : Handler Go.Error Unit := do
  let n ← ca (.revokeCertificate id reason)
  Act.failIf (n = 0) (.new ("certificate " ++ toString id ++ " not found or already revoked"))

/-- `UnrevokeCertificate` lifts a revocation. The guard is one statement and the update, which
asks for no status, is another. -/
def unrevokeCertificate (id : Nat) : Handler Go.Error Unit := do
  let (status, code) ← (ca (.selectRevocation id)).mapResult row
  Act.failIf (status ≠ .revoked) (.new ("certificate " ++ toString id ++ " is not revoked"))
  Act.failIf (code ≠ 6) (.new ("only certificates on hold can be reinstated; " ++
    "this one was revoked as " ++ Go.quote (Pki.reasonName code)))
  ca (.unrevokeCertificate id)

/-- `RevokedCertificates` lists revoked certificates for one CA. -/
def revokedCertificates (caID : Nat) : Handler Go.Error (List Certificate) :=
  ca (.revokedCertificates caID)

/-- `SetRenewedFrom` links a replacement certificate to its predecessor. -/
def setRenewedFrom (id predecessorID : Nat) : Handler Go.Error Unit :=
  ca (.setRenewedFrom id predecessorID)

/-- `RecordCARevocation` adds a subordinate CA's serial to its issuer's CRL. -/
def recordCARevocation (issuerCAID : Nat) (serial : String) (reason : Int) :
    Handler Go.Error Unit := ca (.recordCARevocation issuerCAID serial reason)

/-- `CARevocations` lists subordinate CAs revoked by one issuer. -/
def caRevocations (issuerCAID : Nat) : Handler Go.Error (List CARevocation) :=
  ca (.caRevocations issuerCAID)

end Goca.Store
