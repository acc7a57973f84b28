import Goca.Ca.Service

/-!
# Package ca: renewal and revocation

What happens to a certificate after it is issued. The loops over certificates, expiring
certificates and subordinate authorities are recursions over the lists they run over; the descent
of `RevokeCA` into the CA tree takes fuel, and a run whose fuel does not reach the leaves never
ends.
-/

set_option autoImplicit false

namespace Goca.Ca

open Go (Time)
open Goca.Pki
open Goca.Store hiding createCA setCAStatus setDefaultCA
open Interleave (Act.failIf)

variable [Go.Runtime]

/-! ## Renewal -/

/-- `RenewInput` describes a rotation of an existing certificate. -/
structure RenewInput where
  days : Int := 0
  sameKey : Bool := false
  caRef : String := ""
  keyType : String := ""
  revokeOld : Bool := false
  storeKey : Option Bool := none
  note : String := ""
  actor : String := ""
  allowSubordinateCA : Bool := false

/-- `RenewResult` carries the replacement certificate. -/
structure RenewResult where
  certificate : Certificate
  previous : Certificate
  privateKey : Option PrivateKey
  chain : List X509
  revokedOld : Bool

/-- Which authority signs the replacement: the requested one, or the old issuer while it can. -/
def renewalIssuer (i : RenewInput) (old : Certificate) : Handler Go.Error String :=
  if Go.trimSpace i.caRef ≠ "" then pure (Go.trimSpace i.caRef)
  else do
    let issuer ← (getCA old.caID).attempt
    match issuer with
    | .error _ => pure ""
    | .ok issuer =>
      let able ← (checkCanIssue issuer).attempt
      pure (match able with
        | .ok () => toString issuer.id
        | .error _ => "")

/-- The validity of the replacement: the requested one, or the span of the original. -/
def renewalDays (s : Service) (i : RenewInput) (old : Certificate) : Int :=
  if i.days ≤ 0 then
    let span := old.notAfter.wholeDays old.notBefore
    if 0 < span then span else s.cfg.defaultCertDays
  else i.days

/-- `subjectOf` rebuilds a subject from a stored certificate. -/
def subjectOf (c : Certificate) : Except Go.Error Subject :=
  match parseCertPEM c.certPEM with
  | .ok cert => .ok (subjectFromPKIX cert.subject)
  | .error e => .error (.wrap "parse the certificate being renewed: " e "")

/-- The request that `Renew` hands to `Issue`. -/
def renewalRequest (s : Service) (i : RenewInput) (old : Certificate) (caRef : String)
    (days : Int) (subject : Subject) : Except Go.Error IssueInput := do
  let request : IssueInput := {
    caRef := caRef
    subject := subject
    sans := old.sans
    profile := old.profile
    days := days
    storeKey := some (i.storeKey.getD old.hasKey)
    note := firstNonEmpty [i.note, old.note]
    actor := i.actor
    allowSubordinateCA := i.allowSubordinateCA }
  if i.sameKey then
    let key ← (certKey old).mapError fun e => .wrap "cannot reuse the existing key: " e ""
    let sans ← parseSANs old.sans
    let csr ← (csrFromKey key subject sans).mapError fun e =>
      .wrap "build a request for the existing key: " e ""
    return { request with
      mode := .csr
      csrPEM := .csr csr
      keyPEM := .key key
      sans := [] }
  else
    return { request with
      mode := .generate
      keyType := firstNonEmpty [i.keyType, old.keyType, s.cfg.defaultKeyType] }

/-- Revoke the predecessor of a renewed certificate, unless the copy read first was revoked. -/
def revokeOldIf (wanted : Bool) (old new : Certificate) : Handler Go.Error Bool :=
  if wanted = true ∧ old.status ≠ .revoked then do
    (revokeCertificate old.id reasonSuperseded).mapError fun e =>
      .wrap ("the replacement was issued (serial " ++ new.serialHex ++
        ") but revoking the old certificate failed: ") e ""
    pure true
  else pure false

/-- `Renew` issues a replacement for an existing certificate. -/
def Service.renew (s : Service) (id : Nat) (i : RenewInput) : Handler Go.Error RenewResult := do
  let old ← getCertificate id
  let caRef ← renewalIssuer i old
  let days := renewalDays s i old
  let subject ← .ofExcept (subjectOf old)
  let request ← .ofExcept (renewalRequest s i old caRef days subject)
  let res ← s.issue request
  setRenewedFrom res.certificate.id old.id
  let revokedOld ← revokeOldIf i.revokeOld old res.certificate
  s.audit i.actor "cert.renew" old.commonName ("old_serial=" ++ old.serialHex ++ " new_serial=" ++
    res.certificate.serialHex ++ " same_key=" ++ boolText i.sameKey ++ " revoked_old=" ++
    boolText revokedOld ++ " days=" ++ toString days)
  pure {
    certificate := { res.certificate with renewedFrom := some old.id }
    previous := old
    privateKey := res.privateKey
    chain := res.chain
    revokedOld := revokedOld }

/-- The loop of `RenewExpiring`: failures are collected rather than aborting the batch. -/
def Service.renewEach {ε : Type} (s : Service) (i : RenewInput) :
    List Certificate → Handler ε (List RenewResult × List Go.Error)
  | [] => pure ([], [])
  | c :: rest => do
    let res ← (s.renew c.id i).attempt
    let (out, errs) ← s.renewEach i rest
    pure (match res with
      | .ok r => (r :: out, errs)
      | .error e =>
        (out, .wrap (c.commonName ++ " (serial " ++ c.serialHex ++ "): ") e "" :: errs))

/-- `RenewExpiring` rotates the active certificates expiring within the given number of days. -/
def Service.renewExpiring {ε : Type} (s : Service) (withinDays : Int) (i : RenewInput) :
    Handler ε (List RenewResult × List Go.Error) := do
  let due ← (searchCertificates {
    expiringIn := if withinDays ≤ 0 then 30 else withinDays
    limit := 1000
    sortBy := "not_after" }).attempt
  match due with
  | .error e => pure ([], [e])
  | .ok (due, _) => s.renewEach i due

/-! ## Revocation -/

/-- `Hold` revokes a certificate reversibly. -/
def Service.hold (s : Service) (id : Nat) (actor : String) : Handler Go.Error Unit := do
  let c ← getCertificate id
  Act.failIf (c.status = .revoked ∧ c.onHold = true) (.new (c.commonName ++ " is already on hold"))
  Act.failIf (c.status = .revoked) (.new (c.commonName ++ " is permanently revoked (" ++
    reasonName c.revokeCode ++ ") and cannot be put on hold"))
  revokeCertificate id reasonCertificateHold
  s.audit actor "cert.hold" c.commonName ("serial=" ++ c.serialHex)

/-- `Release` lifts a hold, returning the certificate to active use. -/
def Service.release (s : Service) (id : Nat) (actor : String) : Handler Go.Error Unit := do
  let c ← getCertificate id
  unrevokeCertificate id
  s.audit actor "cert.release" c.commonName ("serial=" ++ c.serialHex)

/-- `BulkRevokeInput` selects certificates to revoke in one operation. -/
structure BulkRevokeInput where
  ids : List Nat := []
  filter : Option CertFilter := none
  reason : Int := 0
  actor : String := ""

/-- `BulkRevokeResult` reports what happened. -/
structure BulkRevokeResult where
  revoked : List Certificate := []
  skipped : List String := []
  errors : List String := []
  caIDs : List Nat := []

/-- The targets an explicit list of IDs names. -/
def targetsByID : List Nat → Handler Go.Error (List Certificate)
  | [] => pure []
  | id :: rest => do
    let c ← (getCertificate id).mapError fun e => .wrap ("certificate " ++ toString id ++ ": ") e ""
    let more ← targetsByID rest
    pure (c :: more)

/-- The targets a search adds to those already named. -/
def targetsByFilter (targets : List Certificate) :
    Option CertFilter → Handler Go.Error (List Certificate)
  | none => pure targets
  | some f => do
    let (found, _) ← searchCertificates { f with limit := if f.limit ≤ 0 then 1000 else f.limit }
    pure (targets ++ found.filter fun c => !(targets.any (·.id == c.id)))

/-- The loop of `BulkRevoke`: already revoked certificates are skipped, failures are collected. -/
def revokeEach {ε : Type} (reason : Int) :
    List Certificate → BulkRevokeResult → Handler ε BulkRevokeResult
  | [], out => pure out
  | c :: rest, out =>
    if c.status = .revoked then
      revokeEach reason rest { out with
        skipped := out.skipped ++ [c.commonName ++ " (serial " ++ c.serialHex ++
          ") was already revoked"] }
    else do
      let r ← (revokeCertificate c.id reason).attempt
      revokeEach reason rest (match r with
        | .error e => { out with errors := out.errors ++ [c.commonName ++ ": " ++ e.text] }
        | .ok () => { out with
            revoked := out.revoked ++ [c]
            caIDs := if c.caID ∈ out.caIDs then out.caIDs else out.caIDs ++ [c.caID] })

/-- `BulkRevoke` revokes many certificates at once, by explicit ID or by search filter. -/
def Service.bulkRevoke (s : Service) (i : BulkRevokeInput) : Handler Go.Error BulkRevokeResult := do
  let named ← targetsByID i.ids
  let targets ← targetsByFilter named i.filter
  Act.failIf (targets = []) (.new "nothing matched; refusing to revoke an empty selection")
  let out ← revokeEach i.reason targets {}
  s.audit i.actor "cert.bulk_revoke" (toString out.revoked.length ++ " certificates") ("reason=" ++
    reasonName i.reason ++ " skipped=" ++ toString out.skipped.length ++ " errors=" ++
    toString out.errors.length)
  pure out

/-! ## Retiring an authority -/

/-- A warning of `RevokeCA`. -/
inductive Warning
  /-- A certificate that could not be revoked. -/
  | certificate (name : String) (err : Go.Error)
  /-- A subordinate authority that could not be retired. -/
  | subordinate (name : String) (err : Go.Error)
  | parentCRL (name parent : String) (err : Go.Error)
  | parentKey (parent : String)
  | issuerUnknown
  | root
  deriving Repr, DecidableEq

/-- The text of a warning. -/
def Warning.text : Warning → String
  | .certificate name e => "could not revoke " ++ name ++ ": " ++ e.text
  | .subordinate name e => "could not retire subordinate " ++ name ++ ": " ++ e.text
  | .parentCRL name parent e =>
    "could not add " ++ name ++ " to the CRL of " ++ parent ++ ": " ++ e.text
  | .parentKey parent => "goca holds no private key for the issuer " ++ Go.quote parent ++
    ", so it cannot publish a CRL listing this authority. Revoke it on the external authority " ++
    "as well"
  | .issuerUnknown =>
    "this authority's issuer is not known to goca; revoke it on the external authority too"
  | .root =>
    "this is a root authority: nothing can revoke it, so remove it from your trust stores"

/-- Whether a warning reports a certificate or subordinate that could not be revoked. -/
def Warning.isFailure : Warning → Bool
  | .certificate _ _ | .subordinate _ _ => true
  | _ => false

/-- `RevokeCAResult` reports the outcome of retiring an authority. -/
structure RevokeCAResult where
  ca : CA
  revokedInParent : Bool := false
  parentName : String := ""
  certificates : Nat := 0
  childCAs : List String := []
  warnings : List Warning := []

/-- The loop of `RevokeCA` over the certificates of the authority. -/
def revokeIssued {ε : Type} (reason : Int) :
    List Certificate → RevokeCAResult → Handler ε RevokeCAResult
  | [], out => pure out
  | c :: rest, out =>
    if c.status = .revoked then revokeIssued reason rest out
    else do
      let r ← (revokeCertificate c.id reason).attempt
      revokeIssued reason rest (match r with
        | .error e => { out with warnings := out.warnings ++ [.certificate c.commonName e] }
        | .ok () => { out with certificates := out.certificates + 1 })

/-- The loop of `RevokeCA` over the authorities beneath it. The warnings of a subordinate's
retirement are not among those of its issuer. -/
def retireChildren {ε : Type} (retire : Nat → Handler Go.Error RevokeCAResult) :
    List CA → RevokeCAResult → Handler ε RevokeCAResult
  | [], out => pure out
  | child :: rest, out => do
    let sub ← (retire child.id).attempt
    retireChildren retire rest (match sub with
      | .error e => { out with warnings := out.warnings ++ [.subordinate child.name e] }
      | .ok sub => { out with
          childCAs := out.childCAs ++ [child.name] ++ sub.childCAs
          certificates := out.certificates + sub.certificates })

/-- The cascade of `RevokeCA`: a failure to list the children is ignored. -/
def revokeBeneath (reason : Int) (retire : Nat → Handler Go.Error RevokeCAResult) (id : Nat)
    (out : RevokeCAResult) : Handler Go.Error RevokeCAResult := do
  let (certs, _) ← searchCertificates { caID := id, limit := 10000 }
  let out ← revokeIssued reason certs out
  let children ← (childCAs id).attempt
  match children with
  | .error _ => pure out
  | .ok children => retireChildren retire children out

/-- The last part of `RevokeCA`: put the authority on its parent's list, where goca can. -/
def revokeInParent {ε : Type} (reason : Int) (c : CA) (out : RevokeCAResult) :
    Handler ε RevokeCAResult :=
  match c.parentID with
  | none =>
    pure { out with
      warnings := out.warnings ++ [if c.isRoot then Warning.root else .issuerUnknown] }
  | some p => do
    let parent ← (getCA p).attempt
    match parent with
    | .error _ => pure out
    | .ok parent =>
      let out := { out with parentName := parent.name }
      if parent.hasKey then do
        let r ← (recordCARevocation parent.id c.serialHex reason).attempt
        pure (match r with
          | .error e => { out with warnings := out.warnings ++ [.parentCRL c.name parent.name e] }
          | .ok () => { out with revokedInParent := true })
      else pure { out with warnings := out.warnings ++ [.parentKey parent.name] }

/-- `RevokeCA` retires an authority: it is disabled first, and with cascade everything beneath it
is retired before its own certificate goes onto the parent's list. -/
def Service.revokeCA (s : Service) (reason : Int) (actor : String) :
    Nat → Nat → Bool → Handler Go.Error RevokeCAResult
  | 0, _, _ => diverge
  | fuel + 1, id, cascade => do
    let c ← getCA id
    Store.setCAStatus id .disabled
    let out ←
      (if cascade then
        revokeBeneath reason (fun child => s.revokeCA reason actor fuel child true) id { ca := c }
      else pure { ca := c })
    let out ← revokeInParent reason c out
    s.audit actor "ca.revoke" c.name ("reason=" ++ reasonName reason ++ " cascade=" ++
      boolText cascade ++ " certificates=" ++ toString out.certificates ++ " in_parent_crl=" ++
      boolText out.revokedInParent)
    pure out

end Goca.Ca
