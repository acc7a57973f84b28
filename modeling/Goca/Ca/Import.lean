import Goca.Ca.Lifecycle

/-!
# Package ca: external authorities

Running goca underneath an authority it does not own: a subordinate CA whose request is signed
outside and brought back, and an authority imported with or without its key.
-/

set_option autoImplicit false

namespace Goca.Ca

open Go (Time)
open Goca.Pki
open Goca.Store hiding createCA setCAStatus setDefaultCA
open Interleave (Act.failIf)

variable [Go.Runtime]

/-! ## Subordinate requests -/

/-- `SubordinateCSRInput` describes a subordinate CA request for an external authority to sign. -/
structure SubordinateCSRInput where
  name : String
  subject : Subject
  keyType : String := ""
  parentRef : String := ""
  actor : String := ""

/-- The row of the authority that a subordinate request names as its parent. -/
def subordinateParent (parentRef : String) : Handler Go.Error (Option Nat) :=
  let ref := Go.trimSpace parentRef
  if ref ≠ "" ∧ ref ≠ "none" then do
    let parent ← (getCAByRef ref).mapError fun e =>
      .wrap ("parent authority " ++ Go.quote ref ++ ": ") e ""
    pure (some parent.id)
  else pure none

/-- The row of a CA that waits for its certificate: it has a key and neither certificate nor
serial. -/
def SubordinateCSRInput.record (i : SubordinateCSRInput) (name slug : String) (kt : KeyType)
    (key : PrivateKey) (parentID : Option Nat) : CA where
  name := name
  slug := slug
  subject := i.subject.text
  keyType := kt.text
  keyEnc := some key
  parentID := parentID
  status := .pending
  isExternal := true

/-- `CreateSubordinateCSR` keeps a new CA key and returns a request for an external authority. -/
def Service.createSubordinateCSR (s : Service) (i : SubordinateCSRInput) :
    Handler Go.Error (CA × CSR) := do
  .ofExcept i.subject.validate
  let trimmed := Go.trimSpace i.name
  let name := if trimmed = "" then i.subject.commonName else trimmed
  let kt ← .ofExcept (parseKeyType
    (firstNonEmpty [i.keyType, s.cfg.defaultKeyType, KeyType.rsa4096.text]))
  let parentID ← subordinateParent i.parentRef
  let (key, csr) ← Pki.createSubordinateCSR i.subject kt
  let slug ← uniqueSlug name
  let saved ← Store.createCA (i.record name slug kt key parentID)
  s.audit i.actor "ca.csr_created" saved.name ("key=" ++ kt.text ++ " awaiting external signature")
  pure (saved, csr)

/-! ## Issuers of imported certificates -/

/-- Whether a stored authority is the issuer of a certificate: its certificate parses and its key
made the signature. -/
def confirmsIssuer (cert : X509) (candidate : CA) : Bool :=
  match candidate.certPEM with
  | some parent => (verifyIssuedBy cert parent).toOption.isSome
  | none => false

/-- The candidate a lookup found, if it is the issuer. -/
def confirmedIssuer (cert : X509) : Except Go.Error CA → Option Nat
  | .ok candidate => if confirmsIssuer cert candidate then some candidate.id else none
  | .error _ => none

/-- `findIssuerID` resolves a certificate's issuer among the stored CAs: by authority key
identifier, by distinguished name, and last by trying every stored CA. -/
def findIssuerID {ε : Type} (cert : X509) : Handler ε (Option Nat) := do
  let byKey ← (findCABySubjectKeyID (hexColons cert.authorityKeyId)).attempt
  match confirmedIssuer cert byKey with
  | some id => pure (some id)
  | none =>
    let bySubject ← (findCABySubject (dnString cert.issuer)).attempt
    match confirmedIssuer cert bySubject with
    | some id => pure (some id)
    | none =>
      let all ← listCAs.attempt
      match all with
      | .error _ => pure none
      | .ok all => pure ((all.find? (confirmsIssuer cert)).map (·.id))

/-- The loop of `uniqueName` from its `i`-th candidate on. -/
def uniqueNameLoop {ε : Type} (name : String) : Nat → Nat → String → Handler ε String
  | 0, _, _ => pure name
  | fuel + 1, i, candidate => do
    let found ← (getCAByRef candidate).attempt
    match found with
    | .error e =>
      if e.isNotFound then pure candidate
      else uniqueNameLoop name fuel (i + 1) (name ++ " (" ++ toString i ++ ")")
    | .ok _ => uniqueNameLoop name fuel (i + 1) (name ++ " (" ++ toString i ++ ")")

/-- `uniqueName`: a name that resolves to no CA, among the first candidates. -/
def uniqueName {ε : Type} (name : String) : Handler ε String := uniqueNameLoop name 98 2 name

/-- The row of an imported authority. -/
def importedRecord (cert : X509) (name slug : String) (key : Option PrivateKey) (keyType : String)
    (parentID : Option Nat) : CA where
  name := name
  slug := slug
  subject := (describe cert).subject
  serialHex := serialHex cert.serialNumber
  keyType := keyType
  certPEM := some cert
  keyEnc := key
  isRoot := isSelfSigned cert
  parentID := parentID
  pathLen := pathLenOf cert
  notBefore := cert.notBefore
  notAfter := cert.notAfter
  status := .active
  fingerprint := fingerprintSHA256 cert
  isExternal := true
  subjectKeyID := (describe cert).subjectKeyID
  authorityKeyID := (describe cert).authorityKeyID

/-- One certificate of a supplied chain: stored as a trust anchor unless it is known or no CA. -/
def Service.importAnchor (s : Service) (actor : String) (anchor : X509) :
    Handler Go.Error Unit := do
  let known ← (findCAByFingerprint (fingerprintSHA256 anchor)).attempt
  match known with
  | .ok _ => pure ()
  | .error _ =>
    if anchor.isCA = false then pure ()
    else
      let parentID ← findIssuerID anchor
      let name :=
        if anchor.subject.commonName = "" then "Imported anchor" else anchor.subject.commonName
      let unique ← uniqueName name
      let slug ← uniqueSlug name
      let _ ← (Store.createCA (importedRecord anchor unique slug none
        (describe anchor).keyType parentID)).mapError fun e =>
          .wrap ("import chain certificate " ++ Go.quote (describe anchor).subject ++ ": ") e ""
      s.audit actor "ca.import_anchor" (describe anchor).subject "from supplied chain"

/-- The loop of `linkIssuer` over a chain, from its last certificate to its first. -/
def Service.importAnchors (s : Service) (actor : String) : List X509 → Handler Go.Error Unit
  | [] => pure ()
  | anchor :: rest => do
    s.importAnchor actor anchor
    s.importAnchors actor rest

/-- `linkIssuer` finds, or imports, the certificate's issuer and returns its ID. -/
def Service.linkIssuer (s : Service) (cert : X509) (chainPEM : PemText) (actor : String) :
    Handler Go.Error (Option Nat) :=
  if isSelfSigned cert then pure none
  else do
    let stored ← findIssuerID cert
    match stored with
    | some id => pure (some id)
    | none =>
      if chainPEM.blank then pure none
      else
        let chain ← .ofExcept ((parseCertChainPEM chainPEM).mapError fun e =>
          .wrap "parse the issuer chain: " e "")
        s.importAnchors actor chain.reverse
        findIssuerID cert

/-- The first certificate of an uploaded text; the others join the supplied chain. -/
def leadCertificate (certPEM chainPEM : PemText) : Except Go.Error (X509 × PemText) :=
  match parseCertChainPEM certPEM with
  | .error e => .error e
  | .ok [] => .error (.new "no certificates found; expected PEM CERTIFICATE blocks or DER")
  | .ok (cert :: extras) => .ok (cert, extras.foldl PemText.append chainPEM)

/-- `ValidateCACertificate`, at the time it reads. -/
def validateNow (cert : X509) : Handler Go.Error Unit := do
  let t ← now
  .ofExcept (validateCACertificate t cert)

/-! ## Completion -/

/-- `CompleteSubordinateInput` carries the signed certificate back. -/
structure CompleteSubordinateInput where
  caRef : String
  certPEM : PemText
  chainPEM : PemText := .none
  makeDefault : Bool := false
  actor : String := ""

/-- `CompleteSubordinate` imports the certificate an external authority issued for a pending CSR,
matching it against the key goca kept. -/
def Service.completeSubordinate (s : Service) (i : CompleteSubordinateInput) :
    Handler Go.Error CA := do
  let rec ← (getCAByRef i.caRef).mapError fun e =>
    .wrap ("authority " ++ Go.quote i.caRef ++ ": ") e ""
  Act.failIf (rec.status ≠ .pending) (.new ("authority " ++ Go.quote rec.name ++
    " is not waiting for a signature (status: " ++ rec.status.text ++ ")"))
  Act.failIf (i.certPEM.blank = true) (.new "the signed certificate is required")
  let (cert, chainPEM) ← .ofExcept ((leadCertificate i.certPEM i.chainPEM).mapError fun e =>
    .wrap "parse the signed certificate: " e "")
  validateNow cert
  let key ← .ofExcept ((decryptKey rec.keyEnc).mapError fun e =>
    .wrap "unlock the pending CA key: " e "")
  .ofExcept ((matchKeyToCertificate key cert).mapError fun e =>
    .wrap "" e (". This certificate was signed for a different request; re-submit " ++ rec.name ++
      " and import the certificate issued for it"))
  let parentID ← s.linkIssuer cert chainPEM i.actor
  Store.completeCA rec.id (importedRecord cert rec.name rec.slug rec.keyEnc rec.keyType parentID)
  if i.makeDefault then Store.setDefaultCA rec.id else pure ()
  s.audit i.actor "ca.completed" rec.name ("serial=" ++ serialHex cert.serialNumber ++ " issuer=" ++
    Go.quote (describe cert).issuer ++ " valid_until=" ++ cert.notAfter.date)
  getCA rec.id

/-! ## Import -/

/-- `ImportCAInput` describes an externally created authority being brought in. -/
structure ImportCAInput where
  name : String := ""
  certPEM : PemText
  keyPEM : KeyText := .blank
  chainPEM : PemText := .none
  makeDefault : Bool := false
  actor : String := ""

/-- The private key of an imported authority, if one is supplied: it must be the certificate's. -/
def importedKey (text : KeyText) (cert : X509) : Except Go.Error (Option PrivateKey) :=
  match text with
  | .blank => .ok none
  | text => do
    let key ← (parsePrivateKeyPEM text).mapError fun e => .wrap "parse the CA private key: " e ""
    matchKeyToCertificate key cert
    return some key

/-- `ImportCA` brings an external authority into goca: with a key as an issuing CA, without one as a
trust anchor. -/
def Service.importCA (s : Service) (i : ImportCAInput) : Handler Go.Error CA := do
  Act.failIf (i.certPEM.blank = true) (.new "a CA certificate is required")
  let (cert, chainPEM) ← .ofExcept (leadCertificate i.certPEM i.chainPEM)
  validateNow cert
  let existing ← (findCAByFingerprint (fingerprintSHA256 cert)).attempt
  .ofExcept (match existing with
    | .ok c => .error (.new ("this certificate is already present as " ++ Go.quote c.name ++
        " (id " ++ toString c.id ++ ")"))
    | .error _ => .ok ())
  let key ← .ofExcept (importedKey i.keyPEM cert)
  let parentID ← s.linkIssuer cert chainPEM i.actor
  let trimmed := Go.trimSpace i.name
  let name :=
    if trimmed ≠ "" then trimmed
    else if cert.subject.commonName ≠ "" then cert.subject.commonName
    else "Imported CA"
  let unique ← uniqueName name
  let slug ← uniqueSlug name
  let saved ← Store.createCA (importedRecord cert unique slug key
    ((key.map fun k => keyTypeOf k.publicKey).getD (describe cert).keyType) parentID)
  Act.failIf (i.makeDefault = true ∧ key = none)
    (.new "a trust anchor has no private key and cannot be the default issuer")
  let saved ← makeDefaultIf i.makeDefault saved
  s.audit i.actor "ca.import" saved.name ((if key.isSome then "issuing CA" else "trust anchor") ++
    " serial=" ++ saved.serialHex ++ " issuer=" ++ Go.quote (describe cert).issuer)
  pure saved

end Goca.Ca
