import Goca.Pki.Subject

/-!
# Issuance profiles, certificate templates and certificate checks

What a profile puts into a certificate, what `x509.CreateCertificate` makes of a template, and the
checks an imported certificate goes through. The functions that draw keys, serials and the time
are programs and live with the other programs; here is everything they compute in between.
-/

set_option autoImplicit false

namespace Goca.Pki

open Go (Time)

/-! ## Profiles -/

/-- The issuance profiles. -/
inductive Profile
  | server | client | serverCli | codeSign | email | intermCA
  deriving Repr, DecidableEq

/-- The name a profile is stored under. -/
def Profile.text : Profile → String
  | .server => "server"
  | .client => "client"
  | .serverCli => "server-client"
  | .codeSign => "code-signing"
  | .email => "email"
  | .intermCA => "intermediate-ca"

/-- `ParseProfile` normalises profile input. -/
def parseProfile [Go.Runtime] (s : String) : Except Go.Error Profile :=
  let p := Go.toLower (Go.trimSpace s)
  if p = "" then .ok .server
  else if p = Profile.server.text then .ok .server
  else if p = Profile.client.text then .ok .client
  else if p = Profile.serverCli.text then .ok .serverCli
  else if p = Profile.codeSign.text then .ok .codeSign
  else if p = Profile.email.text then .ok .email
  else if p = Profile.intermCA.text then .ok .intermCA
  else if p ∈ ["both", "server+client", "serverclient"] then .ok .serverCli
  else .error (.new ("unknown profile " ++ Go.quote s))

/-- `Profile.usages`. -/
def Profile.usages : Profile → KeyUsage × List ExtKeyUsage
  | .client => (.digitalSignature ||| .keyEncipherment, [.clientAuth])
  | .serverCli => (.digitalSignature ||| .keyEncipherment, [.serverAuth, .clientAuth])
  | .codeSign => (.digitalSignature, [.codeSigning])
  | .email => (.digitalSignature ||| .keyEncipherment, [.emailProtection])
  | _ => (.digitalSignature ||| .keyEncipherment, [.serverAuth])

/-- The key usages of every certificate authority goca signs. -/
def caUsages : KeyUsage := .certSign ||| .crlSign ||| .digitalSignature

/-! ## Signing a template -/

/-- What is filled in of an `x509.Certificate` before it is signed. -/
structure Template where
  serialNumber : Nat
  subject : Name
  notBefore : Time
  notAfter : Time
  keyUsage : KeyUsage
  extKeyUsage : List ExtKeyUsage := []
  isCA : Bool := false
  maxPathLen : Int := 0
  maxPathLenZero : Bool := false
  sans : SANSet := {}
  subjectKeyId : List Nat := []
  deriving Repr, DecidableEq

/-- `subjectKeyID`, with the digest ideal: the key's identity. -/
def subjectKeyID (k : PublicKey) : List Nat := [k.id]

/-- Whether a text fits an IA5String, as `x509.CreateCertificate` asks of names. -/
def isIA5 (s : String) : Bool := s.toList.all Go.isASCII

/-- The names of a set that must be IA5Strings. -/
def SANSet.ia5Names (s : SANSet) : List String := s.dns ++ s.emails ++ s.uris.map (·.text)

/-- The path length that the encoding of a template carries: -1 where it carries none. -/
def Template.encodedPathLen (t : Template) : Int :=
  if t.maxPathLen = 0 ∧ t.maxPathLenZero = false then -1 else t.maxPathLen

/-- Whether a time has an ASN.1 encoding: its year is between 0 and 9999. -/
def encodableTime (t : Time) : Bool := decide (-31622400 ≤ t) && decide (t < 315537897600)

/-- `x509.CreateCertificate` and `x509.ParseCertificate` of its result. Without a parent the
template signs itself. `digest` is what the encoding adds of its own. -/
def x509CreateCertificate (t : Template) (parent : Option X509) (pub : PublicKey)
    (priv : PrivateKey) (digest : String) : Except Go.Error X509 :=
  let issuer := (parent.map (·.subject)).getD t.subject
  if t.maxPathLen < -1 then
    .error (.driver "x509: invalid MaxPathLen, must be greater or equal to -1")
  else if t.isCA = false ∧ t.maxPathLen ≠ -1 ∧ (t.maxPathLen ≠ 0 ∨ t.maxPathLenZero = true) then
    .error (.driver "x509: only CAs are allowed to specify MaxPathLen")
  else match t.sans.ia5Names.find? (fun n => !isIA5 n) with
  | some n => .error (.driver ("x509: " ++ Go.quote n ++ " cannot be encoded as an IA5String"))
  | none =>
    if parent.any (fun p => p.publicKey != priv.publicKey) then
      .error (.driver "x509: provided PrivateKey doesn't match parent's PublicKey")
    else if encodableTime t.notBefore = false ∨ encodableTime t.notAfter = false then
      .error (.driver "asn1: structure error: cannot represent time as GeneralizedTime")
    else .ok {
      version := 3
      serialNumber := t.serialNumber
      subject := t.subject
      issuer := issuer
      notBefore := t.notBefore
      notAfter := t.notAfter
      keyUsage := t.keyUsage
      extKeyUsage := t.extKeyUsage
      basicConstraintsValid := true
      isCA := t.isCA
      maxPathLen := t.encodedPathLen
      maxPathLenZero := t.encodedPathLen == 0
      sans := t.sans
      subjectKeyId := t.subjectKeyId
      authorityKeyId :=
        if issuer = t.subject then [] else (parent.map (·.subjectKeyId)).getD []
      publicKey := pub
      signedBy := priv.publicKey
      digest := digest }

/-- What a signed certificate takes from its template, its parent and its keys. -/
theorem x509CreateCertificate_ok {t : Template} {parent : Option X509} {pub : PublicKey}
    {priv : PrivateKey} {digest : String} {c : X509}
    (h : x509CreateCertificate t parent pub priv digest = .ok c) :
    c.serialNumber = t.serialNumber ∧ c.subject = t.subject ∧ c.notBefore = t.notBefore ∧
      c.notAfter = t.notAfter ∧ c.keyUsage = t.keyUsage ∧ c.isCA = t.isCA ∧ c.sans = t.sans ∧
      c.subjectKeyId = t.subjectKeyId ∧ c.publicKey = pub ∧ c.signedBy = priv.publicKey ∧
      (∀ p, parent = some p → p.publicKey = priv.publicKey) := by
  unfold x509CreateCertificate at h
  dsimp only at h
  split at h
  · cases h
  split at h
  · cases h
  split at h
  · cases h
  split at h
  · cases h
  next hkey =>
  split at h
  · cases h
  · cases h
    refine ⟨rfl, rfl, rfl, rfl, rfl, rfl, rfl, rfl, rfl, rfl, ?_⟩
    rintro p rfl
    simpa using hkey

/-- What a signed certificate takes over besides: the extended usages of its template and the name
of its issuer. -/
theorem x509CreateCertificate_issuer {t : Template} {parent : Option X509} {pub : PublicKey}
    {priv : PrivateKey} {digest : String} {c : X509}
    (h : x509CreateCertificate t parent pub priv digest = .ok c) :
    c.extKeyUsage = t.extKeyUsage ∧ c.issuer = (parent.map (·.subject)).getD t.subject ∧
      ∀ n ∈ t.sans.ia5Names, isIA5 n = true := by
  unfold x509CreateCertificate at h
  dsimp only at h
  split at h
  · cases h
  split at h
  · cases h
  split at h
  · cases h
  next hnames =>
  split at h
  · cases h
  split at h
  · cases h
  · cases h
    refine ⟨rfl, rfl, fun n hn => ?_⟩
    simpa using List.find?_eq_none.mp hnames n hn

/-- A certificate is signed only over times that can be encoded. -/
theorem x509CreateCertificate_encodable {t : Template} {parent : Option X509} {pub : PublicKey}
    {priv : PrivateKey} {digest : String} {c : X509}
    (h : x509CreateCertificate t parent pub priv digest = .ok c) :
    encodableTime t.notBefore = true ∧ encodableTime t.notAfter = true := by
  unfold x509CreateCertificate at h
  dsimp only at h
  split at h
  · cases h
  split at h
  · cases h
  split at h
  · cases h
  split at h
  · cases h
  split at h
  · cases h
  · next htimes =>
    rw [not_or, Bool.not_eq_false, Bool.not_eq_false] at htimes
    exact htimes

/-! ## Checks on a certificate from outside -/

/-- `ValidateCACertificate` checks that a certificate is usable as a signing CA. -/
def validateCACertificate (now : Time) (c : X509) : Except Go.Error Unit := do
  if c.isCA = false then
    throw (.new ("this certificate is not a CA: its basic constraints say CA:FALSE. " ++
      "Import the CA certificate, not an end-entity certificate"))
  if c.keyUsage ≠ 0 ∧ c.keyUsage &&& .certSign = 0 then
    throw (.new ("this CA certificate does not carry the keyCertSign usage, " ++
      "so it cannot sign certificates"))
  if now.after c.notAfter then
    throw (.new ("this CA certificate expired on " ++ c.notAfter.date))

/-- `(*Certificate).CheckSignatureFrom`: the parent may sign certificates and its key made the
signature. -/
def checkSignatureFrom (c parent : X509) : Except Go.Error Unit := do
  if (parent.version = 3 ∧ parent.basicConstraintsValid = false) ∨
      (parent.basicConstraintsValid = true ∧ parent.isCA = false) then
    throw (.driver ("x509: invalid signature: parent certificate cannot sign this kind of " ++
      "certificate"))
  if parent.keyUsage ≠ 0 ∧ parent.keyUsage &&& .certSign = 0 then
    throw (.driver ("x509: invalid signature: parent certificate cannot sign this kind of " ++
      "certificate"))
  if c.signedBy ≠ parent.publicKey then
    throw (.driver "x509: signature verification failed")

/-- `IsSelfSigned` reports whether a certificate signed itself, i.e. it is a root. Names are
compared by their text in the source, which tells any two names apart. -/
def isSelfSigned (c : X509) : Bool :=
  c.subject == c.issuer && (checkSignatureFrom c c).toOption.isSome

/-- `VerifyIssuedBy` checks that child was signed by parent. -/
def verifyIssuedBy (child parent : X509) : Except Go.Error Unit :=
  (checkSignatureFrom child parent).mapError fun e =>
    .wrap (Go.quote (dnString child.subject) ++ " was not signed by " ++
      Go.quote (dnString parent.subject) ++ ": ") e ""

/-- `samePublicKey`. -/
def samePublicKey (a b : PublicKey) : Except Go.Error Unit :=
  if a = b then .ok () else .error (.new "private key does not match the public key")

/-- `KeyMatchesCert`. -/
def keyMatchesCert (k : PrivateKey) (c : X509) : Except Go.Error Unit := do
  let pub ← publicKeyOf k
  samePublicKey pub c.publicKey

/-- `MatchKeyToCertificate`. -/
def matchKeyToCertificate (k : PrivateKey) (c : X509) : Except Go.Error Unit :=
  (keyMatchesCert k c).mapError fun e =>
    .wrap "the private key does not belong to this certificate: " e ""

/-- `KeyMatchesCSR`. -/
def keyMatchesCSR (k : PrivateKey) (r : CSR) : Except Go.Error Unit := do
  let pub ← publicKeyOf k
  samePublicKey pub r.publicKey

/-- `PathLenOf`: the path length constraint of a CA certificate, -1 when it is unconstrained. -/
def pathLenOf (c : X509) : Int :=
  if c.basicConstraintsValid = false then -1
  else if c.maxPathLenZero then 0
  else if c.maxPathLen ≤ 0 then -1
  else c.maxPathLen

/-- The part of `CertInfo` the program stores. -/
structure CertInfo where
  subject : String
  issuer : String
  sans : List String
  keyType : String
  fingerprintSHA256 : Fingerprint
  subjectKeyID : String
  authorityKeyID : String

/-- `Describe` summarises a parsed certificate. -/
def describe (c : X509) : CertInfo where
  subject := dnString c.subject
  issuer := dnString c.issuer
  sans := c.sans.strings
  keyType := keyTypeOf c.publicKey
  fingerprintSHA256 := fingerprintSHA256 c
  subjectKeyID := hexColons c.subjectKeyId
  authorityKeyID := hexColons c.authorityKeyId

/-- `appendUnique`. -/
def appendUnique (list : List String) (v : String) : List String :=
  if v ∈ list then list else list ++ [v]

/-- The request that `CSRFromKey` builds for a key, as `ParseCSR` reads it back. -/
def requestFor [Go.Runtime] (k : PrivateKey) (subject : Subject) (sans : SANSet) : CSR where
  subject := subject.pkix
  sans := { sans with
    emails := if subject.emailAddress = "" then sans.emails
      else appendUnique sans.emails subject.emailAddress }
  publicKey := k.publicKey

/-- `CSRFromKey` builds a request for an existing private key. -/
def csrFromKey [Go.Runtime] (k : PrivateKey) (subject : Subject) (sans : SANSet) :
    Except Go.Error CSR :=
  if k.Signs then .ok (requestFor k subject sans)
  else .error (.new "private key does not implement crypto.Signer")

end Goca.Pki
