import Goca.Go.Base64

/-!
# Package pqcrypt, byte by byte

How `Seal` lays out an envelope and how `Open` cuts it up again. Keys, secrets, nonces and texts are
the bytes they are in the program; the functions of the cryptographic packages are parameters,
behind the checks of lengths that those packages make. A function here has three outcomes: a result,
an error, and a run-time panic, which slicing beyond an array and a nonce of the wrong length end
in.
-/

set_option autoImplicit false

namespace Goca.Pqcrypt.Wire

/-- `[]byte`, read only. -/
abbrev Bytes := List UInt8

/-! ## Outcomes and slices -/

/-- A computation that returns a result or an error, unless it panics. -/
abbrev Run (α : Type) : Type := ExceptT Go.Error Option α

/-- A run-time panic. -/
def Run.panics {α : Type} : Run α := ExceptT.mk none

/-- A result or an error. -/
def Run.ofExcept {α : Type} (x : Except Go.Error α) : Run α := ExceptT.mk (some x)

/-- A slice of bytes: those up to its length, and those behind, up to its capacity. -/
structure Slice where
  bytes : Bytes
  spare : Bytes

/-- `s[lo:hi]`, within the capacity. -/
def Slice.sub (s : Slice) (lo hi : Nat) : Run Bytes :=
  if lo ≤ hi ∧ hi ≤ s.bytes.length + s.spare.length then
    pure (((s.bytes ++ s.spare).drop lo).take (hi - lo))
  else .panics

/-- `s[lo:]`, within the length. -/
def Slice.rest (s : Slice) (lo : Nat) : Run Bytes :=
  if lo ≤ s.bytes.length then pure (s.bytes.drop lo) else .panics

/-! ## The cryptographic packages -/

/-- The functions of crypto/hkdf, crypto/mlkem, crypto/ecdh, crypto/aes and crypto/cipher that the
package calls. A key of ML-KEM is its seed, and draws are what is read from crypto/rand. -/
structure Primitives where
  /-- `hkdf.Key` over SHA-256. -/
  hkdf (secret salt : Bytes) (info : String) (keyLength : Nat) : Bytes
  /-- `ek.Encapsulate()`: the shared secret and its ciphertext. -/
  encapsulate (seed draw : Bytes) : Bytes × Bytes
  /-- The shared secret of a ciphertext. -/
  decapsulate (seed ciphertext : Bytes) : Bytes
  /-- The public half of an X25519 key. -/
  publicKey (priv : Bytes) : Bytes
  /-- The X25519 function. -/
  x25519 (priv pub : Bytes) : Bytes
  /-- AES-GCM: the ciphertext with its tag. -/
  gcmSeal (key nonce plaintext aad : Bytes) : Bytes
  /-- AES-GCM: the plaintext of a ciphertext whose tag is right. -/
  gcmOpen (key nonce ciphertext aad : Bytes) : Option Bytes

/-- `mlkem.CiphertextSize768`. -/
def kemCTSize : Nat := 1088

def saltSize : Nat := 32
def x25519PubSize : Nat := 32
def gcmNonceSize : Nat := 12
def dekSize : Nat := 32
def gcmTagSize : Nat := 16
def wrappedDEKSize : Nat := dekSize + gcmTagSize

/-- Everything before the payload's own nonce and ciphertext. -/
def headerSize : Nat :=
  1 + saltSize + kemCTSize + x25519PubSize + gcmNonceSize + wrappedDEKSize

namespace Primitives

variable (P : Primitives)

/-- `dk.Decapsulate(ciphertext)`. -/
def decapsulateChecked (seed ciphertext : Bytes) : Except Go.Error Bytes :=
  if ciphertext.length ≠ kemCTSize then .error (.driver "mlkem: invalid ciphertext length")
  else .ok (P.decapsulate seed ciphertext)

/-- `ecdh.X25519().NewPublicKey(key)`. -/
def newPublicKey (key : Bytes) : Except Go.Error Bytes :=
  if key.length ≠ x25519PubSize then .error (.driver "crypto/ecdh: invalid public key")
  else .ok key

/-- `priv.ECDH(pub)`, which refuses the secret of a point of low order. -/
def ecdh (priv pub : Bytes) : Except Go.Error Bytes :=
  if (P.x25519 priv pub).all (· == 0) then
    .error (.driver "crypto/ecdh: bad X25519 remote ECDH input: low order point")
  else .ok (P.x25519 priv pub)

/-- `newGCM` accepts the key sizes of AES. -/
def newGCM (key : Bytes) : Except Go.Error Bytes :=
  if key.length ∈ [16, 24, 32] then .ok key
  else .error (.wrap "pqcrypt: "
    (.driver ("crypto/aes: invalid key size " ++ toString key.length)) "")

/-- `aead.Seal(nil, nonce, plaintext, aad)`. -/
def aeadSeal (key nonce plaintext aad : Bytes) : Run Bytes :=
  if nonce.length ≠ gcmNonceSize then .panics else pure (P.gcmSeal key nonce plaintext aad)

/-- `aead.Open(nil, nonce, ciphertext, aad)`. -/
def aeadOpen (key nonce ciphertext aad : Bytes) : Run Bytes :=
  if nonce.length ≠ gcmNonceSize then .panics
  else if ciphertext.length < gcmTagSize then
    throw (.driver "cipher: message authentication failed")
  else match P.gcmOpen key nonce ciphertext aad with
  | some plaintext => pure plaintext
  | none => throw (.driver "cipher: message authentication failed")

/-- `wrapKey` derives the key that wraps the data key from the two shared secrets. -/
def wrapKey (mlkemShared x25519Shared salt : Bytes) : Bytes :=
  P.hkdf (mlkemShared ++ x25519Shared) salt "dek-wrap" 32

end Primitives

/-! ## The vault -/

/-- A hybrid X25519 and ML-KEM-768 keypair. -/
structure Vault where
  mlkemDK : Bytes
  x25519Priv : Bytes
  deriving Repr, DecidableEq

/-- `hkdfSalt`, which namespaces vault-keypair derivation from the master key. -/
def hkdfSalt : Bytes := Go.Base64.ascii "goca/pq/vault/v1"

/-- `DeriveVault` derives the vault keypair from a 32-byte master key. -/
def deriveVault (P : Primitives) (masterKey : Bytes) : Except Go.Error Vault :=
  if masterKey.length ≠ 32 then
    .error (.new ("pqcrypt: master key must be 32 bytes, got " ++ toString masterKey.length))
  else .ok {
    mlkemDK := P.hkdf masterKey hkdfSalt "mlkem768-seed" 64
    x25519Priv := P.hkdf masterKey hkdfSalt "x25519-priv" 32 }

/-- What `Seal` reads from crypto/rand, in the sizes that it reads. -/
structure Draws where
  encapsulation : Bytes
  ephemeral : Bytes
  salt : { b : Bytes // b.length = saltSize }
  dek : { b : Bytes // b.length = dekSize }
  wrapNonce : { b : Bytes // b.length = gcmNonceSize }
  payloadNonce : { b : Bytes // b.length = gcmNonceSize }
  deriving DecidableEq

/-- `Prefix`. -/
def envelopePrefix : Bytes := Go.Base64.ascii "pqenc:v1:"

/-- `algHybridX25519MLKEM768`. -/
def algHybridX25519MLKEM768 : UInt8 := 1

/-- An error of a package that is called, with a text before it. -/
def wrapping {α : Type} (text : String) (x : Except Go.Error α) : Run α :=
  .ofExcept (x.mapError fun e => .wrap text e "")

/-- `Seal` encrypts a plaintext, authenticating the additional data alongside it. -/
def Vault.sealBytes (P : Primitives) (v : Vault) (d : Draws) (plaintext aad : Bytes) :
    Run Bytes := do
  let (mlkemShared, mlkemCT) := P.encapsulate v.mlkemDK d.encapsulation
  let x25519Shared ← wrapping "pqcrypt: X25519 exchange: "
    (P.ecdh d.ephemeral (P.publicKey v.x25519Priv))
  let kekAEAD ← .ofExcept (Primitives.newGCM (P.wrapKey mlkemShared x25519Shared d.salt))
  let wrappedDEK ← P.aeadSeal kekAEAD d.wrapNonce d.dek aad
  let dekAEAD ← .ofExcept (Primitives.newGCM d.dek)
  let payloadCT ← P.aeadSeal dekAEAD d.payloadNonce plaintext aad
  return envelopePrefix ++ Go.Base64.encode ([algHybridX25519MLKEM768] ++ d.salt ++ mlkemCT ++
    P.publicKey d.ephemeral ++ d.wrapNonce ++ wrappedDEK ++ d.payloadNonce ++ payloadCT)

/-- The bytes that `DecodeString` returns, in the buffer it allocates. -/
def decodeEnvelope (text : Bytes) : Except Go.Error Slice := do
  let raw ← Go.Base64.decode text
  return ⟨raw, List.replicate (Go.Base64.decodedLen text.length - raw.length) 0⟩

/-- `Open` behind the length and the algorithm of an envelope. -/
def Vault.openRaw (P : Primitives) (v : Vault) (raw : Slice) (aad : Bytes) : Run Bytes := do
  let off := 1
  let salt ← raw.sub off (off + saltSize)
  let off := off + saltSize
  let mlkemCT ← raw.sub off (off + kemCTSize)
  let off := off + kemCTSize
  let xEphPub ← raw.sub off (off + x25519PubSize)
  let off := off + x25519PubSize
  let wrapNonce ← raw.sub off (off + gcmNonceSize)
  let off := off + gcmNonceSize
  let wrappedDEK ← raw.sub off (off + wrappedDEKSize)
  let off := off + wrappedDEKSize
  let payloadNonce ← raw.sub off (off + gcmNonceSize)
  let off := off + gcmNonceSize
  let payloadCT ← raw.rest off
  let mlkemShared ← wrapping "pqcrypt: ML-KEM decapsulate: "
    (P.decapsulateChecked v.mlkemDK mlkemCT)
  let xPub ← wrapping "pqcrypt: parse ephemeral X25519 key: " (Primitives.newPublicKey xEphPub)
  let x25519Shared ← wrapping "pqcrypt: X25519 exchange: " (P.ecdh v.x25519Priv xPub)
  let kekAEAD ← .ofExcept (Primitives.newGCM (P.wrapKey mlkemShared x25519Shared salt))
  let dek ← tryCatch (P.aeadOpen kekAEAD wrapNonce wrappedDEK aad) fun e =>
    throw (.wrap ("pqcrypt: unwrap data key failed " ++
      "(wrong vault key, tampered data, or mismatched aad): ") e "")
  let dekAEAD ← .ofExcept (Primitives.newGCM dek)
  tryCatch (P.aeadOpen dekAEAD payloadNonce payloadCT aad) fun e =>
    throw (.wrap "pqcrypt: decrypt failed (tampered data or mismatched aad): " e "")

/-- `Open` reverses `Seal`. -/
def Vault.openBytes (P : Primitives) (v : Vault) (envelope aad : Bytes) : Run Bytes := do
  if envelopePrefix.isPrefixOf envelope = false then
    throw (.new "pqcrypt: not a pqenc:v1: envelope")
  let raw ← wrapping "pqcrypt: decode envelope: "
    (decodeEnvelope (envelope.drop envelopePrefix.length))
  if raw.bytes.length < headerSize then throw (.new "pqcrypt: envelope too short")
  let alg := raw.bytes.headD 0
  if alg ≠ algHybridX25519MLKEM768 then
    throw (.new ("pqcrypt: unsupported algorithm " ++ toString alg.toNat))
  v.openRaw P raw aad

end Goca.Pqcrypt.Wire
