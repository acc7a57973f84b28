import Goca.Go.Net

/-!
# Keys, certificates and requests

What package pki works on, with the cryptography ideal.

- A key pair is an identity: `PublicKey` is the private key's identity, and a certificate names the
  key that signed it. A signature verifies under a key exactly when that key made it.
- PEM and DER are transparent: a stored PEM column is the certificate it encodes, or nothing where
  the source stores the empty text. `X509.digest`, the SHA-256 of the encoding in hex, also stands
  for the bytes that the other fields do not determine.
- A digest is injective: a fingerprint is the certificate it was taken of.

Text that arrives from outside is what the parser makes of it: `PemText`, `KeyText` and `CsrText`
are the parse results that `ParseCertChainPEM`, `ParsePrivateKeyPEM` and `ParseCSR` go on from.
-/

set_option autoImplicit false

namespace Goca.Pki

open Go (Time IP URL)

/-! ## Keys -/

/-- The supported key types. -/
inductive KeyType
  | rsa2048 | rsa3072 | rsa4096 | ecP256 | ecP384 | ecP521 | ed25519
  deriving Repr, DecidableEq

/-- The name a key type is stored and shown under. -/
def KeyType.text : KeyType → String
  | .rsa2048 => "rsa-2048"
  | .rsa3072 => "rsa-3072"
  | .rsa4096 => "rsa-4096"
  | .ecP256 => "ec-p256"
  | .ecP384 => "ec-p384"
  | .ecP521 => "ec-p521"
  | .ed25519 => "ed25519"

/-- Every selectable key type, in menu order. -/
def keyTypes : List KeyType := [.rsa2048, .rsa3072, .rsa4096, .ecP256, .ecP384, .ecP521, .ed25519]

/-- What `crypto/x509` knows a key as. -/
inductive KeyKind
  | rsa (bits : Nat)
  | ecP256 | ecP384 | ecP521
  /-- A curve that has no key type. -/
  | ecOther
  | ed25519
  /-- A public key of an unknown algorithm, or a private key that cannot sign. -/
  | other
  deriving Repr, DecidableEq

/-- What a key of a type is, as `GenerateKey` makes it. -/
def KeyType.kind : KeyType → KeyKind
  | .rsa2048 => .rsa 2048
  | .rsa3072 => .rsa 3072
  | .rsa4096 => .rsa 4096
  | .ecP256 => .ecP256
  | .ecP384 => .ecP384
  | .ecP521 => .ecP521
  | .ed25519 => .ed25519

/-- A public key. -/
structure PublicKey where
  id : Nat
  kind : KeyKind
  deriving Repr, DecidableEq

/-- A private key, known by its public half. -/
structure PrivateKey where
  publicKey : PublicKey
  deriving Repr, DecidableEq

/-- A private key that can sign: a `crypto.Signer`. -/
abbrev PrivateKey.Signs (k : PrivateKey) : Prop := k.publicKey.kind ≠ .other

/-- `PublicKeyOf` extracts the public half of a private key. -/
def publicKeyOf (k : PrivateKey) : Except Go.Error PublicKey :=
  if k.Signs then .ok k.publicKey
  else .error (.new "unsupported private key type *ecdh.PrivateKey")

/-- `rsaKeyType`. -/
def rsaKeyType (bits : Nat) : String :=
  if 4096 ≤ bits then KeyType.rsa4096.text
  else if 3072 ≤ bits then KeyType.rsa3072.text
  else "rsa-" ++ toString bits

/-- `KeyTypeOf` reports the type of an existing key, which need not be a selectable one. -/
def keyTypeOf (k : PublicKey) : String :=
  match k.kind with
  | .rsa bits => rsaKeyType bits
  | .ecP256 => KeyType.ecP256.text
  | .ecP384 => KeyType.ecP384.text
  | .ecP521 => KeyType.ecP521.text
  | .ecOther => "ec-unknown"
  | .ed25519 => KeyType.ed25519.text
  | .other => "unknown"

theorem KeyType.kind_ne_other (kt : KeyType) : kt.kind ≠ .other := by
  cases kt <;> exact fun h => nomatch h

/-- A key of a type is reported as that type. -/
theorem keyTypeOf_kind {k : PublicKey} {kt : KeyType} (h : k.kind = kt.kind) :
    keyTypeOf k = kt.text := by
  unfold keyTypeOf
  rw [h]
  cases kt <;> rfl

/-- `ParseKeyType` normalises user input such as "RSA 4096", "rsa4096", "p-256". -/
def parseKeyType [Go.Runtime] (s : String) : Except Go.Error KeyType :=
  let n := Go.replaceRune (Go.replaceRune (Go.toLower (Go.trimSpace s)) ' ' ['-']) '_' ['-']
  if n ∈ ["", "default"] then .ok .rsa2048
  else if n ∈ ["rsa", "rsa-2048", "rsa2048"] then .ok .rsa2048
  else if n ∈ ["rsa-3072", "rsa3072"] then .ok .rsa3072
  else if n ∈ ["rsa-4096", "rsa4096"] then .ok .rsa4096
  else if n ∈ ["ec", "ecdsa", "ec-p256", "ecp256", "p-256", "p256", "prime256v1", "secp256r1"] then
    .ok .ecP256
  else if n ∈ ["ec-p384", "ecp384", "p-384", "p384", "secp384r1"] then .ok .ecP384
  else if n ∈ ["ec-p521", "ecp521", "p-521", "p521", "secp521r1"] then .ok .ecP521
  else if n ∈ ["ed25519", "ed-25519"] then .ok .ed25519
  else .error (.new ("unsupported key type " ++ Go.quote s ++ " (valid: " ++
    Go.join (keyTypes.map KeyType.text) ", " ++ ")"))

/-! ## Names and key usages -/

/-- A distinguished name, as `pkix.Name` holds the attributes it knows. -/
structure Name where
  commonName : String := ""
  serialNumber : String := ""
  organization : List String := []
  organizationalUnit : List String := []
  country : List String := []
  province : List String := []
  locality : List String := []
  streetAddress : List String := []
  postalCode : List String := []
  deriving Repr, DecidableEq

/-- `x509.KeyUsage`: a bit set. -/
abbrev KeyUsage := BitVec 9

namespace KeyUsage

def digitalSignature : KeyUsage := 1#9
def keyEncipherment : KeyUsage := 4#9
def certSign : KeyUsage := 32#9
def crlSign : KeyUsage := 64#9

end KeyUsage

/-- `x509.ExtKeyUsage`, the values the profiles use. -/
inductive ExtKeyUsage
  | serverAuth | clientAuth | codeSigning | emailProtection
  deriving Repr, DecidableEq

/-! ## Subject alternative names -/

/-- Subject alternative names split by type. -/
structure SANSet where
  dns : List String := []
  ips : List IP := []
  emails : List String := []
  uris : List URL := []
  deriving Repr, DecidableEq

/-- Whether no name is present. -/
def SANSet.empty (s : SANSet) : Bool :=
  s.dns.isEmpty && s.ips.isEmpty && s.emails.isEmpty && s.uris.isEmpty

/-! ## Certificates and requests -/

/-- An X.509 certificate as `x509.ParseCertificate` returns it. -/
structure X509 where
  version : Nat
  serialNumber : Nat
  subject : Name
  issuer : Name
  notBefore : Time
  notAfter : Time
  keyUsage : KeyUsage
  extKeyUsage : List ExtKeyUsage
  basicConstraintsValid : Bool
  isCA : Bool
  maxPathLen : Int
  maxPathLenZero : Bool
  sans : SANSet
  subjectKeyId : List Nat
  authorityKeyId : List Nat
  publicKey : PublicKey
  /-- The key whose signature the certificate carries. -/
  signedBy : PublicKey
  /-- The SHA-256 of the encoding, upper-case bytes between colons. -/
  digest : String
  deriving Repr, DecidableEq

/-- A certificate signing request as `x509.ParseCertificateRequest` returns it. -/
structure CSR where
  subject : Name
  sans : SANSet
  publicKey : PublicKey
  deriving Repr, DecidableEq

/-- A PEM column: the certificate it encodes, `none` for the empty text. -/
abbrev CertPEM := Option X509

/-- `ParseCertPEM` of a stored column. -/
def parseCertPEM : CertPEM → Except Go.Error X509
  | some c => .ok c
  | none => .error (.new "no CERTIFICATE block found in PEM input")

/-- A SHA-256 fingerprint, `none` for the empty text. -/
abbrev Fingerprint := Option X509

/-- `FingerprintSHA256`. -/
def fingerprintSHA256 (c : X509) : Fingerprint := some c

/-- The text a fingerprint column holds. -/
def Fingerprint.text (f : Fingerprint) : String := (f.map X509.digest).getD ""

/-! ## Texts from outside -/

/-- One PEM block of an uploaded text: a certificate that parses or does not, or another type. -/
inductive PemBlock
  | certificate (parsed : Option X509)
  | other (type : String)
  deriving Repr, DecidableEq

/-- An uploaded certificate text: whether it is blank, its PEM blocks in file order, and what it is
when read as DER. -/
structure PemText where
  blank : Bool
  blocks : List PemBlock
  der : Option X509
  deriving Repr, DecidableEq

/-- The empty text. -/
def PemText.none : PemText := ⟨true, [], Option.none⟩

/-- Appending the PEM encoding of a certificate to a text. -/
def PemText.append (t : PemText) (c : X509) : PemText :=
  ⟨false, t.blocks ++ [.certificate (some c)], Option.none⟩

/-- The certificates of a list of blocks; `none` where one of them does not parse. -/
def certificatesOf : List PemBlock → Option (List X509)
  | [] => some []
  | .certificate (some c) :: rest => (certificatesOf rest).map (c :: ·)
  | .certificate none :: _ => none
  | .other _ :: rest => certificatesOf rest

/-- `ParseCertChainPEM` decodes every certificate in a PEM blob, in file order, and falls back to
raw DER. -/
def parseCertChainPEM (t : PemText) : Except Go.Error (List X509) :=
  match certificatesOf t.blocks with
  | none => .error (.wrap "parse certificate in chain: " (.driver "malformed certificate") "")
  | some (c :: cs) => .ok (c :: cs)
  | some [] =>
    match t.der with
    | some c => .ok [c]
    | none => .error (.new "no certificates found; expected PEM CERTIFICATE blocks or DER")

/-- An uploaded private key text. -/
inductive KeyText
  | blank
  | malformed
  | key (k : PrivateKey)
  deriving Repr, DecidableEq

/-- `ParsePrivateKeyPEM`. -/
def parsePrivateKeyPEM : KeyText → Except Go.Error PrivateKey
  | .key k => .ok k
  | _ => .error (.new "no private key found in PEM input")

/-- An uploaded certificate request text: malformed also covers a signature that does not verify. -/
inductive CsrText
  | blank
  | malformed
  | csr (r : CSR)
  deriving Repr, DecidableEq

/-- `ParseCSR` decodes and verifies a certificate request. -/
def parseCSR : CsrText → Except Go.Error CSR
  | .csr r => .ok r
  | _ => .error (.wrap "parse CSR: " (.driver "malformed certificate request") "")

end Goca.Pki
