import Goca.Store.Statements

/-!
# Package pki: key generation and signing

The functions of package pki that draw keys, serials and the time. What they compute in between is
in the modules on certificates and revocation lists.
-/

set_option autoImplicit false

namespace Goca.Pki

open Go (Time)
open Goca.Store (Handler host now)
open Interleave (Act.failIf)

/-- An answer of the host that may be an error. -/
def hostCall {α : Type} (x : Handler Go.Error (Except Go.Error α)) : Handler Go.Error α :=
  x.mapResult fun
    | .ok r => r
    | .error e => .error e

/-- `GenerateKey` creates a fresh private key of the requested type. -/
def generateKey (kt : KeyType) : Handler Go.Error PrivateKey := hostCall (host (.generateKey kt))

/-- `NewSerial` returns a cryptographically random positive 128-bit serial. -/
def newSerial : Handler Go.Error Nat := hostCall (host .newSerial)

/-- `x509.CreateCertificate`, parsed back. -/
def signTemplate (t : Template) (parent : Option X509) (pub : PublicKey) (priv : PrivateKey) :
    Handler Go.Error X509 := hostCall (host (.createCertificate t parent pub priv))

/-! ## Authorities -/

/-- `CAParams` describes a CA to be created. A root has no parent. -/
structure CAParams where
  subject : Subject
  keyType : KeyType
  days : Int
  pathLen : Int
  parent : Option (X509 × PrivateKey)

/-- `CAResult` holds a freshly created CA. -/
structure CAResult where
  certificate : X509
  privateKey : PrivateKey
  keyType : KeyType
  serialHex : String

/-- The template of a CA certificate. -/
def CAParams.template [Go.Runtime] (p : CAParams) (pub : PublicKey) (serial : Nat) (t : Time) :
    Template where
  serialNumber := serial
  subject := p.subject.pkix
  notBefore := t - 300
  notAfter := t.addDays (if p.days ≤ 0 then 3650 else p.days)
  keyUsage := caUsages
  isCA := true
  maxPathLen := if 0 ≤ p.pathLen then p.pathLen else 0
  maxPathLenZero := p.pathLen == 0
  subjectKeyId := subjectKeyID pub

/-- Whether a certificate would outlive the parent that signs it. -/
def outruns (t : Template) (parent : Option (X509 × PrivateKey)) : Except Go.Error Unit :=
  match parent with
  | some (p, _) =>
    if t.notAfter.after p.notAfter then
      .error (.new ("requested validity (" ++ t.notAfter.date ++
        ") outruns the parent CA, which expires " ++ p.notAfter.date))
    else .ok ()
  | none => .ok ()

/-- `CreateCA` builds a self-signed root or a subordinate CA certificate. -/
def createCA [Go.Runtime] (p : CAParams) : Handler Go.Error CAResult := do
  .ofExcept p.subject.validate
  let key ← (generateKey p.keyType).mapError fun e => .wrap "generate CA key: " e ""
  let serial ← newSerial
  let t ← now
  let tmpl := p.template key.publicKey serial t
  .ofExcept (outruns tmpl p.parent)
  let cert ← (signTemplate tmpl (p.parent.map Prod.fst) key.publicKey
    ((p.parent.map Prod.snd).getD key)).mapError fun e => .wrap "create CA certificate: " e ""
  pure ⟨cert, key, p.keyType, serialHex serial⟩

/-- `CreateSubordinateCSR` generates a CA key pair and a certificate signing request for it. -/
def createSubordinateCSR [Go.Runtime] (subject : Subject) (kt : KeyType) :
    Handler Go.Error (PrivateKey × CSR) := do
  .ofExcept subject.validate
  let key ← (generateKey kt).mapError fun e => .wrap "generate subordinate CA key: " e ""
  pure (key, { subject := subject.pkix, sans := {}, publicKey := key.publicKey })

/-! ## Certificates -/

/-- `GenerateCSR` creates a private key and a matching CSR. -/
def generateCSR [Go.Runtime] (subject : Subject) (sans : SANSet) (kt : KeyType) :
    Handler Go.Error (PrivateKey × CSR) := do
  .ofExcept subject.validate
  let key ← (generateKey kt).mapError fun e => .wrap "generate key: " e ""
  let csr ← .ofExcept (csrFromKey key subject sans)
  pure (key, csr)

/-- `SignParams` describes an issuance from an existing CSR. -/
structure SignParams where
  csr : CSR
  issuer : X509
  issuerKey : PrivateKey
  profile : Profile
  days : Int
  sanOverride : Option SANSet
  subjectOverride : Option Subject
  pathLen : Int := 0

/-- The days a certificate is signed for. -/
def SignParams.lifetime (p : SignParams) : Int := if p.days ≤ 0 then 397 else p.days

/-- The subject a certificate is signed with. -/
def SignParams.subject [Go.Runtime] (p : SignParams) : Name :=
  match p.subjectOverride with
  | some s => s.pkix
  | none => p.csr.subject

/-- The names a certificate is signed with: a server certificate without any gets its common name,
when it parses as one. -/
def SignParams.sans [Go.Runtime] (p : SignParams) : SANSet :=
  let sans := p.sanOverride.getD p.csr.sans
  if sans.empty = true ∧ p.subject.commonName ≠ "" ∧ p.profile ∈ [Profile.server, .serverCli] then
    match parseSANs [p.subject.commonName] with
    | .ok promoted => promoted
    | .error _ => sans
  else sans

/-- The template of an issued certificate. -/
def SignParams.template [Go.Runtime] (p : SignParams) (serial : Nat) (t notAfter : Time) :
    Template :=
  let leaf : Template := {
    serialNumber := serial
    subject := p.subject
    notBefore := t - 300
    notAfter := notAfter
    keyUsage := p.profile.usages.1
    extKeyUsage := p.profile.usages.2
    sans := p.sans
    subjectKeyId := subjectKeyID p.csr.publicKey }
  if p.profile = .intermCA then
    { leaf with
      isCA := true
      keyUsage := caUsages
      extKeyUsage := []
      maxPathLen := p.pathLen
      maxPathLenZero := p.pathLen == 0 }
  else leaf

/-- `Sign` issues a certificate for a CSR using the given CA. -/
def sign [Go.Runtime] (p : SignParams) : Handler Go.Error X509 := do
  Act.failIf (p.issuer.isCA = false) (.new "issuer certificate is not a CA")
  let t₀ ← now
  Act.failIf (t₀.after p.issuer.notAfter = true)
    (.new ("issuing CA expired on " ++ p.issuer.notAfter.date))
  let serial ← newSerial
  let t ← now
  let notAfter := t.addDays (if p.days ≤ 0 then 397 else p.days)
  Act.failIf (notAfter.after p.issuer.notAfter = true) (.new ("requested validity ends " ++
    notAfter.date ++ " but the issuing CA expires " ++ p.issuer.notAfter.date ++
    "; choose a shorter lifetime"))
  (signTemplate (p.template serial t notAfter) (some p.issuer) p.csr.publicKey
    p.issuerKey).mapError fun e => .wrap "sign certificate: " e ""

/-! ## Revocation lists -/

/-- `CRLParams` describes a CRL to be issued. -/
structure CRLParams where
  issuer : X509
  issuerKey : PrivateKey
  number : Nat
  validDays : Int
  revoked : List RevokedEntry

/-- `CreateCRL` produces a certificate revocation list. -/
def createCRL [Go.Runtime] (p : CRLParams) : Handler Go.Error CRL := do
  let t ← now
  let entries ← .ofExcept (crlEntries t p.revoked)
  (hostCall (host (.createRevocationList p.issuer p.issuerKey p.number t
    (t.addDays (crlValidity p.validDays)) entries))).mapError fun e => .wrap "create CRL: " e ""

end Goca.Pki
