import Goca.Pki.Certificate

/-!
# Revocation lists

The reason codes of RFC 5280 and what `x509.CreateRevocationList` makes of a list of entries. A
signed list is kept as the data it carries; the key that signed it is its issuer's.
-/

set_option autoImplicit false

namespace Goca.Pki

open Go (Time)

/-- The revocation reason codes the program names. -/
def reasonSuperseded : Int := 4

/-- The one reversible reason. -/
def reasonCertificateHold : Int := 6

/-- `ReasonNames`: the labels of the reason codes. -/
def reasonNames : List (Int × String) := [(0, "unspecified"), (1, "key compromise"),
  (2, "CA compromise"), (3, "affiliation changed"), (4, "superseded"),
  (5, "cessation of operation"), (6, "certificate hold"), (9, "privilege withdrawn"),
  (10, "AA compromise")]

/-- `ReasonName` renders a revocation reason code. -/
def reasonName (code : Int) : String :=
  ((reasonNames.find? (·.1 = code)).map Prod.snd).getD ("code " ++ toString code)

/-- `RevokedEntry` pairs a serial with the time and reason of revocation. -/
structure RevokedEntry where
  serialHex : String
  revokedAt : Time
  reason : Int
  deriving Repr, DecidableEq

/-- One entry of a signed list. -/
structure CRLEntry where
  serialNumber : Int
  revocationTime : Time
  reasonCode : Int
  deriving Repr, DecidableEq

/-- A signed revocation list. -/
structure CRL where
  issuer : X509
  number : Nat
  thisUpdate : Time
  nextUpdate : Time
  entries : List CRLEntry
  signedBy : PublicKey
  deriving Repr, DecidableEq

/-- The serials a list carries. -/
def CRL.serials (l : CRL) : List Int := l.entries.map (·.serialNumber)

/-- The serial and the time that one entry is signed with: a missing time becomes the time of
signing. -/
def crlEntry [Go.Runtime] (now : Time) (r : RevokedEntry) : Except Go.Error CRLEntry :=
  match serialFromHex r.serialHex with
  | none => .error (.new ("bad serial " ++ Go.quote r.serialHex ++ " in revocation list"))
  | some serial => .ok {
      serialNumber := serial
      revocationTime := if r.revokedAt = Time.zero then now else r.revokedAt
      reasonCode := r.reason }

/-- The entries of a list, in order; the first bad serial fails them all. -/
def crlEntries [Go.Runtime] (now : Time) : List RevokedEntry → Except Go.Error (List CRLEntry)
  | [] => .ok []
  | r :: rest => do
    let e ← crlEntry now r
    let es ← crlEntries now rest
    return e :: es

/-- `x509.CreateRevocationList`: the issuer must be allowed to sign lists and name its key. -/
def x509CreateRevocationList (issuer : X509) (key : PrivateKey) (number : Nat)
    (thisUpdate nextUpdate : Time) (entries : List CRLEntry) : Except Go.Error CRL :=
  if issuer.keyUsage &&& .crlSign = 0 then
    .error (.driver "x509: issuer must have the crlSign key usage bit set")
  else if issuer.subjectKeyId = [] then
    .error (.driver "x509: issuer certificate doesn't contain a subject key identifier")
  else if thisUpdate.after nextUpdate then
    .error (.driver "x509: template.ThisUpdate is after template.NextUpdate")
  else if entries.any (fun e => e.revocationTime == Time.zero) then
    .error (.driver "x509: template contains entry with zero RevocationTime field")
  else .ok {
    issuer := issuer
    number := number
    thisUpdate := thisUpdate
    nextUpdate := nextUpdate
    entries := entries
    signedBy := key.publicKey }

/-- `CreateCRL`, given the time it reads: at least one day of validity, seven by default. -/
def crlValidity (validDays : Int) : Int := if validDays ≤ 0 then 7 else validDays

end Goca.Pki
