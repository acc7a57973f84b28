import Goca.Pki.Sign
import Goca.Store.Ca

/-!
# Package ca: authorities, issuance and revocation lists

The business layer that the CLI, the portal, the API and the ACME service share. Key columns
decrypt under the one master key every replica is configured with.
-/

set_option autoImplicit false

namespace Goca.Ca

open Go (Time)
open Goca.Pki
open Goca.Store hiding createCA setCAStatus setDefaultCA
open Interleave (Act.failIf)

/-- The configuration the service reads. -/
structure Config where
  baseURL : String
  defaultKeyType : String
  defaultCADays : Int
  defaultCertDays : Int
  crlDays : Int
  deriving Repr, DecidableEq

/-- The service: its configuration and whether an event sink is installed. -/
structure Service where
  cfg : Config
  hasSink : Bool
  deriving Repr, DecidableEq

/-! ## Helpers -/

/-- `firstNonEmpty`. -/
def firstNonEmpty (vals : List String) : String :=
  (vals.find? fun v => decide (Go.trimSpace v ≠ "")).getD ""

/-- `decryptKey` decrypts and parses a stored private key. -/
def decryptKey (enc : Option PrivateKey) : Except Go.Error PrivateKey :=
  match enc with
  | some k => .ok k
  | none => .error (.new "no private key found in PEM input")

/-- `INSERT INTO audit_log`. -/
def insertAudit (actor action target detail ip : String) : Handler Go.Error Unit :=
  ExceptT.mk (.ask (.audit actor action target detail ip) .pure)

/-- `recordAudit` writes the audit row, whose failure is ignored, and tells the event sink. -/
def Service.recordAudit {ε : Type} (s : Service) (actor action target detail ip : String) :
    Handler ε Unit := do
  let actor := if actor = "" then "system" else actor
  let _ ← (insertAudit actor action target detail ip).attempt
  if s.hasSink then host (.sink actor action target detail ip) else pure ()

/-- `audit` records an action without an address. -/
def Service.audit {ε : Type} (s : Service) (actor action target detail : String) :
    Handler ε Unit := s.recordAudit actor action target detail ""

/-- The runes of a slug. -/
def isSlugRune (c : Char) : Bool := ('a' ≤ c && c ≤ 'z') || ('0' ≤ c && c ≤ '9')

/-- Replace every maximal run of other runes by one hyphen: `[^a-z0-9]+`. -/
def hyphenate : Bool → List Char → List Char
  | _, [] => []
  | inRun, c :: rest =>
    if isSlugRune c then c :: hyphenate false rest
    else if inRun then hyphenate true rest
    else '-' :: hyphenate true rest

/-- `Slugify` makes a URL-safe identifier out of a CA name. -/
def slugify [Go.Runtime] (s : String) : String :=
  let out := Go.trim (.ofList (hyphenate false (Go.toLower (Go.trimSpace s)).toList)) "-"
  let out := if out = "" then "ca" else out
  .ofList (out.toList.take 60)

/-- The seconds of the Unix epoch. -/
def unix (t : Time) : Int := t - 62135596800

/-- The loop of `uniqueSlug` from its `i`-th candidate on. -/
def uniqueSlugLoop {ε : Type} (base : String) : Nat → Nat → String → Handler ε String
  | 0, _, _ => do
    let t ← now
    pure (base ++ "-" ++ toString (unix t))
  | fuel + 1, i, slug => do
    let found ← (getCABySlug slug).attempt
    match found with
    | .error e =>
      if e.isNotFound then pure slug
      else uniqueSlugLoop base fuel (i + 1) (base ++ "-" ++ toString i)
    | .ok _ => uniqueSlugLoop base fuel (i + 1) (base ++ "-" ++ toString i)

/-- `uniqueSlug`: a slug no CA uses, among the first hundred candidates. -/
def uniqueSlug [Go.Runtime] {ε : Type} (name : String) : Handler ε String :=
  uniqueSlugLoop (slugify name) 98 2 (slugify name)

/-- What `checkCanIssue` decides, given the time it reads. -/
def canIssue (t : Time) (c : CA) : Except Go.Error Unit :=
  if c.status = .pending then
    .error (.new ("authority " ++ Go.quote c.name ++ " is still waiting for its signed " ++
      "certificate. Send its CSR to the external authority, then import the result with " ++
      "`goca ca import-signed " ++ c.slug ++ " --cert signed.crt`"))
  else if c.hasKey = false then
    .error (.new ("authority " ++ Go.quote c.name ++ " is a trust anchor: goca holds its " ++
      "certificate but not its private key, so it cannot sign. Issue from a CA that has a key"))
  else if c.status ≠ .active then
    .error (.new ("authority " ++ Go.quote c.name ++ " is " ++ c.status.text ++
      " and cannot issue certificates"))
  else if c.expired t then
    .error (.new ("authority " ++ Go.quote c.name ++ " expired on " ++ c.notAfter.date))
  else .ok ()

/-- `checkCanIssue` explains why a CA cannot sign right now. -/
def checkCanIssue (c : CA) : Handler Go.Error Unit := do
  let t ← now
  .ofExcept (canIssue t c)

/-- The reasons of the CAs that cannot issue. -/
def issueObstacles {ε : Type} : List CA → Handler ε (List String)
  | [] => pure []
  | c :: rest => do
    let r ← (checkCanIssue c).attempt
    let more ← issueObstacles rest
    pure (match r with
      | .error e => e.text :: more
      | .ok () => more)

/-- `noIssuerError` explains why no authority was available. -/
def noIssuerError {ε : Type} (ref : String) : Handler ε Go.Error :=
  if Go.trimSpace ref ≠ "" then
    pure (.new ("no certificate authority matches " ++ Go.quote ref))
  else do
    let all ← listCAs.attempt
    match all with
    | .error _ | .ok [] =>
      pure (.new ("no CA available; create one first with `goca ca create --wizard`, " ++
        "the web wizard, or import an existing one with `goca ca import`"))
    | .ok cas =>
      let reasons ← issueObstacles cas
      pure (match reasons with
        | [reason] => .new reason
        | _ => .new ("no authority can issue right now:\n  - " ++ Go.join reasons "\n  - "))

/-! ## CA management -/

/-- `CreateCAInput` describes a new certificate authority. -/
structure CreateCAInput where
  name : String
  subject : Subject
  keyType : String := ""
  days : Int := 0
  parentRef : String := ""
  pathLen : Int := 0
  makeDefault : Bool := false
  actor : String := ""

/-- A parent that `CreateCA` signs with: its row, its certificate and its key. -/
abbrev Parent := CA × X509 × PrivateKey

/-- The parent a reference names, its certificate parsed and its key unlocked. -/
def loadParent (parentRef : String) : Handler Go.Error (Option Parent) :=
  let ref := Go.trimSpace parentRef
  if ref ≠ "" ∧ ref ≠ "none" then do
    let parent ← (getCAByRef ref).mapError fun e => .wrap ("parent CA " ++ Go.quote ref ++ ": ") e ""
    let cert ← .ofExcept ((parseCertPEM parent.certPEM).mapError fun e =>
      .wrap "parse parent CA certificate: " e "")
    let key ← .ofExcept ((decryptKey parent.keyEnc).mapError fun e =>
      .wrap "unlock parent CA key: " e "")
    pure (some (parent, cert, key))
  else pure none

/-- The last step of creating or importing a CA: make it the default on request. -/
def makeDefaultIf (wanted : Bool) (c : CA) : Handler Go.Error CA :=
  if wanted then do
    Store.setDefaultCA c.id
    pure { c with isDefault := true }
  else pure c

/-- `%t`. -/
def boolText (b : Bool) : String := if b then "true" else "false"

section

variable [Go.Runtime]

/-- The row of a CA that goca created. -/
def CreateCAInput.record (i : CreateCAInput) (name slug : String) (parent : Option Parent)
    (res : CAResult) : CA where
  name := name
  slug := slug
  subject := i.subject.text
  serialHex := res.serialHex
  keyType := res.keyType.text
  certPEM := some res.certificate
  keyEnc := some res.privateKey
  isRoot := parent.isNone
  parentID := parent.map fun p => p.1.id
  pathLen := i.pathLen
  notBefore := res.certificate.notBefore
  notAfter := res.certificate.notAfter
  status := .active
  fingerprint := fingerprintSHA256 res.certificate

/-- `CreateCA` generates a root or intermediate CA and stores it. -/
def Service.createCA (s : Service) (i : CreateCAInput) : Handler Go.Error CA := do
  let trimmed := Go.trimSpace i.name
  let name := if trimmed = "" then i.subject.commonName else trimmed
  Act.failIf (name = "") (.new "a CA name is required")
  .ofExcept i.subject.validate
  let kt ← .ofExcept (parseKeyType
    (firstNonEmpty [i.keyType, s.cfg.defaultKeyType, KeyType.rsa4096.text]))
  let days := if i.days ≤ 0 then s.cfg.defaultCADays else i.days
  let parent ← loadParent i.parentRef
  let res ← Pki.createCA ⟨i.subject, kt, days, i.pathLen, parent.map Prod.snd⟩
  let slug ← uniqueSlug name
  let saved ← Store.createCA (i.record name slug parent res)
  let saved ← makeDefaultIf i.makeDefault saved
  s.audit i.actor "ca.create" saved.name ("serial=" ++ saved.serialHex ++ " key=" ++
    saved.keyType ++ " days=" ++ toString days ++ " root=" ++ boolText saved.isRoot)
  pure saved

/-- `SetDefaultCA` marks a CA as the issuance default. -/
def Service.setDefaultCA (s : Service) (id : Nat) (actor : String) : Handler Go.Error Unit := do
  Store.setDefaultCA id
  s.audit actor "ca.set_default" (toString id) ""

/-- `SetCAStatus` enables or disables issuance from a CA. -/
def Service.setCAStatus (s : Service) (id : Nat) (status : CAStatus) (actor : String) :
    Handler Go.Error Unit := do
  Act.failIf (status ≠ .active ∧ status ≠ .disabled) (.new ("status must be " ++
    Go.quote CAStatus.active.text ++ " or " ++ Go.quote CAStatus.disabled.text))
  Store.setCAStatus id status
  s.audit actor "ca.status" (toString id) status.text

end

/-- The loop of `CAChain`: at most sixteen certificates, up to the first parent that is not
there. -/
def caChainFrom : Nat → CA → Handler Go.Error (List X509)
  | 0, _ => pure []
  | fuel + 1, cur => do
    let cert ← .ofExcept (parseCertPEM cur.certPEM)
    match cur.parentID with
    | none => pure [cert]
    | some p =>
      let parent ← (getCA p).attempt
      match parent with
      | .error _ => pure [cert]
      | .ok parent =>
        let rest ← caChainFrom fuel parent
        pure (cert :: rest)

/-- `CAChain` returns the CA certificate followed by its ancestors up to the root. -/
def caChain (c : CA) : Handler Go.Error (List X509) := caChainFrom 16 c

/-! ## Issuance -/

/-- `IssueMode` selects where the key material comes from. -/
inductive IssueMode
  | unset | generate | csr
  | other (text : String)
  deriving Repr, DecidableEq

def IssueMode.text : IssueMode → String
  | .unset => ""
  | .generate => "generate"
  | .csr => "csr"
  | .other t => t

/-- `IssueInput` describes a certificate request. -/
structure IssueInput where
  caRef : String := ""
  mode : IssueMode := .unset
  subject : Subject := {}
  sans : List String := []
  keyType : String := ""
  profile : String := ""
  days : Int := 0
  csrPEM : CsrText := .blank
  keyPEM : KeyText := .blank
  storeKey : Option Bool := none
  note : String := ""
  actor : String := ""
  allowSubordinateCA : Bool := false

/-- `ErrSubordinateCANotAllowed`. -/
def errSubordinateCANotAllowed : Go.Error := .new (
  "the \"intermediate-ca\" profile issues a certificate authority and is limited to " ++
  "administrators; create subordinate authorities with \"ca create --parent\" instead")

/-- `IssueResult` carries the stored certificate plus any freshly generated key. -/
structure IssueResult where
  certificate : Certificate
  privateKey : Option PrivateKey
  chain : List X509

/-- An authority that passed every check of an issuance: its row, certificate and key. -/
abbrev Issuer := CA × X509 × PrivateKey

/-- Resolve the authority of an issuance and check that it can sign. -/
def loadIssuer (ref : String) : Handler Go.Error Issuer := do
  let found ← (getCAByRef ref).attempt
  match found with
  | .error e =>
    if e.isNotFound then do
      let e ← noIssuerError ref
      throw e
    else throw e
  | .ok rec =>
    checkCanIssue rec
    let cert ← .ofExcept ((parseCertPEM rec.certPEM).mapError fun e =>
      .wrap "parse CA certificate: " e "")
    let key ← .ofExcept ((decryptKey rec.keyEnc).mapError fun e => .wrap "unlock CA key: " e "")
    pure (rec, cert, key)

/-- What an issuance signs: the request, the requester's key where goca knows it, and the name of
its key type. -/
structure KeyMaterial where
  csr : CSR
  key : Option PrivateKey
  keyType : String

/-- The mode of a request that does not name one. -/
def IssueInput.effectiveMode (i : IssueInput) : IssueMode :=
  match i.mode with
  | .unset => if i.csrPEM = .blank then .generate else .csr
  | m => m

/-- `ModeCSR`: a supplied request, with the requester's key when it is supplied too. -/
def IssueInput.suppliedRequest (i : IssueInput) : Except Go.Error KeyMaterial := do
  if i.csrPEM = .blank then throw (.new "csr_pem is required when mode is \"csr\"")
  let csr ← parseCSR i.csrPEM
  if i.keyPEM = .blank then return ⟨csr, none, keyTypeOf csr.publicKey⟩
  let key ← (parsePrivateKeyPEM i.keyPEM).mapError fun e =>
    .wrap "parse supplied private key: " e ""
  (keyMatchesCSR key csr).mapError fun e => .wrap "supplied key does not match the CSR: " e ""
  return ⟨csr, some key, keyTypeOf csr.publicKey⟩

section

variable [Go.Runtime]

/-- `ModeGenerate`: a new key and a request for it. -/
def Service.generatedRequest (s : Service) (i : IssueInput) : Handler Go.Error KeyMaterial := do
  .ofExcept i.subject.validate
  let kt ← .ofExcept (parseKeyType (firstNonEmpty [i.keyType, s.cfg.defaultKeyType]))
  let sans ← .ofExcept (parseSANs i.sans)
  let (key, csr) ← generateCSR i.subject sans kt
  pure ⟨csr, some key, kt.text⟩

/-- The key material of an issuance, by its mode. -/
def Service.keyMaterial (s : Service) (i : IssueInput) : Handler Go.Error KeyMaterial :=
  match i.effectiveMode with
  | .csr => .ofExcept i.suppliedRequest
  | .generate => s.generatedRequest i
  | _ => throw (.new ("unknown issue mode " ++ Go.quote i.mode.text ++
      " (use \"generate\" or \"csr\")"))

/-- Names supplied alongside a CSR override what the CSR carries. -/
def IssueInput.sanOverride (i : IssueInput) : Except Go.Error (Option SANSet) :=
  if i.effectiveMode = .csr ∧ i.sans ≠ [] then (parseSANs i.sans).map some else .ok none

/-- A common name supplied alongside a CSR overrides its subject. -/
def IssueInput.subjectOverride (i : IssueInput) : Option Subject :=
  if i.effectiveMode = .csr ∧ Go.trimSpace i.subject.commonName ≠ "" then some i.subject else none

/-- The row of an issued certificate. -/
def IssueInput.record (i : IssueInput) (issuer : CA) (profile : Profile) (m : KeyMaterial)
    (cert : X509) : Certificate where
  caID := issuer.id
  serialHex := serialHex cert.serialNumber
  commonName := cert.subject.commonName
  subject := (describe cert).subject
  sans := (describe cert).sans
  profile := profile.text
  keyType := m.keyType
  certPEM := some cert
  keyEnc := if i.storeKey.getD true then m.key else none
  fingerprint := fingerprintSHA256 cert
  notBefore := cert.notBefore
  notAfter := cert.notAfter
  requestedBy := i.actor
  note := i.note

/-- `Issue` signs a certificate, from a supplied CSR or from a key pair it generates. -/
def Service.issue (s : Service) (i : IssueInput) : Handler Go.Error IssueResult := do
  let (issuer, issuerCert, issuerKey) ← loadIssuer i.caRef
  let profile ← .ofExcept (parseProfile i.profile)
  Act.failIf (profile = .intermCA ∧ i.allowSubordinateCA = false) errSubordinateCANotAllowed
  let days := if i.days ≤ 0 then s.cfg.defaultCertDays else i.days
  let m ← s.keyMaterial i
  let sanOverride ← .ofExcept i.sanOverride
  let cert ← sign {
    csr := m.csr
    issuer := issuerCert
    issuerKey := issuerKey
    profile := profile
    days := days
    sanOverride := sanOverride
    subjectOverride := i.subjectOverride }
  let record := i.record issuer profile m cert
  let saved ← createCertificate record
  s.audit i.actor "cert.issue" saved.commonName ("serial=" ++ saved.serialHex ++ " ca=" ++
    issuer.name ++ " profile=" ++ profile.text ++ " days=" ++ toString days ++ " mode=" ++
    i.effectiveMode.text ++ " key_stored=" ++ boolText record.keyEnc.isSome)
  let chain ← (caChain issuer).attempt
  pure ⟨saved, if i.effectiveMode = .generate then m.key else none, chain.toOption.getD []⟩

/-! ## Certificates -/

/-- `CertKeyPEM` returns the stored private key for a certificate, if retained. -/
def certKey (c : Certificate) : Except Go.Error PrivateKey :=
  match c.keyEnc with
  | some k => .ok k
  | none => .error (.new ("no private key is stored for this certificate " ++
      "(it was issued from a CSR, or key storage was disabled)"))

/-- `CertChainPEM` returns the certificate followed by the full issuing chain. -/
def certChainPEM (c : Certificate) : Handler Go.Error (List X509) := do
  let issuer ← getCA c.caID
  let chain ← caChain issuer
  pure (c.certPEM.toList ++ chain)

/-! ## Revocation and revocation lists -/

/-- `Revoke` marks a certificate revoked with an RFC 5280 reason. -/
def Service.revoke (s : Service) (id : Nat) (reason : Int) (actor : String) :
    Handler Go.Error Unit := do
  let c ← getCertificate id
  revokeCertificate id reason
  s.audit actor "cert.revoke" c.commonName
    ("serial=" ++ c.serialHex ++ " reason=" ++ reasonName reason)

/-- The entries of revoked certificates; a missing revocation time is read from the clock. -/
def certEntries {ε : Type} : List Certificate → Handler ε (List RevokedEntry)
  | [] => pure []
  | r :: rest => do
    let t ← now
    let entries ← certEntries rest
    pure (⟨r.serialHex, r.revokedAt.getD t, r.revokeCode⟩ :: entries)

/-- The entry of a retired subordinate authority. -/
def caEntry (r : CARevocation) : RevokedEntry := ⟨r.serialHex, r.revokedAt, r.reason⟩

/-- `GenerateCRL` issues a fresh CRL for a CA. The lists are read before the number is taken. -/
def Service.generateCRL (s : Service) (caID : Nat) (actor : String) : Handler Go.Error CRL := do
  let rec ← getCA caID
  Act.failIf (rec.pending = true)
    (.new ("authority " ++ Go.quote rec.name ++ " has no certificate yet, so it has no CRL"))
  Act.failIf (rec.hasKey = false) (.new ("goca holds no private key for " ++ Go.quote rec.name ++
    ", so it cannot sign a CRL. Publish that authority's CRL from wherever it is operated"))
  let issuerCert ← .ofExcept (parseCertPEM rec.certPEM)
  let issuerKey ← .ofExcept (decryptKey rec.keyEnc)
  let revoked ← revokedCertificates caID
  let entries ← certEntries revoked
  let caRevs ← caRevocations caID
  let entries := entries ++ caRevs.map caEntry
  let number ← nextCRLNumber caID
  let crl ← createCRL ⟨issuerCert, issuerKey, number, s.cfg.crlDays, entries⟩
  s.audit actor "crl.generate" rec.name
    ("number=" ++ toString number ++ " entries=" ++ toString entries.length)
  pure crl

end

end Goca.Ca
