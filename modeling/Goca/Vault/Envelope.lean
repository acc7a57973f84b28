import Mathlib.Data.Sym.Sym2
import Goca.Go.Decimal

/-!
# The envelope of a sealed value

Package pqcrypt with its primitives ideal, as the cryptography of package pki is.

- A key is its own identity: what it was derived of, or the number it was drawn as. A public half
  is known by its private one.
- ML-KEM: a ciphertext is the key it was made for and the draw it was made with. Under any other
  key it decapsulates to a secret of its own, as FIPS 203 has it, and not to an error.
- X25519: the secret two keys agree on is the unordered pair of them.
- HKDF is injective, and AES-GCM opens exactly what was sealed under the same key, nonce and
  additional data.

The bytes of an envelope are read by their parts; a text that is no envelope is one of the ways in
which `Open` finds that out.
-/

set_option autoImplicit false

namespace Goca.Pqcrypt

/-- `[]byte`. -/
abbrev Bytes := List UInt8

/-! ## Primitives -/

/-- An ML-KEM-768 key, derived of a master key. -/
structure DecapsulationKey where
  masterKey : Bytes
  deriving Repr, DecidableEq

/-- What a key was encapsulated for, and the draw it was made with. -/
structure KemCiphertext where
  recipient : DecapsulationKey
  draw : Nat
  deriving Repr, DecidableEq

/-- The secret of an encapsulation, or the one of an implicit rejection. -/
inductive KemShared
  | agreed (c : KemCiphertext)
  | rejected (key : DecapsulationKey) (c : KemCiphertext)
  deriving Repr, DecidableEq

/-- `dk.Decapsulate(ciphertext)`. -/
def DecapsulationKey.decapsulate (dk : DecapsulationKey) (c : KemCiphertext) : KemShared :=
  if c.recipient = dk then .agreed c else .rejected dk c

/-- An X25519 key: derived of a master key, or ephemeral. -/
inductive X25519Key
  | derived (masterKey : Bytes)
  | ephemeral (draw : Nat)
  deriving Repr, DecidableEq

/-- `priv.ECDH(pub)`. -/
def X25519Key.ecdh (priv pub : X25519Key) : Sym2 X25519Key := s(priv, pub)

/-- `wrapKey` derives the key that wraps a data key from both shared secrets. -/
@[ext] structure WrapKey where
  mlkemShared : KemShared
  x25519Shared : Sym2 X25519Key
  salt : Nat

/-- Field by field: what a derived instance casts along does not reduce where the two pairs agree in
the other order. -/
instance : DecidableEq WrapKey := fun k k' =>
  decidable_of_iff
    (k.mlkemShared = k'.mlkemShared ∧ k.x25519Shared = k'.x25519Shared ∧ k.salt = k'.salt)
    WrapKey.ext_iff.symm

/-- What AES-256-GCM made of a plaintext. -/
structure Ciphertext (K P : Type) where
  key : K
  nonce : Nat
  plaintext : P
  aad : String
  deriving DecidableEq

/-- `aead.Open(nil, nonce, ciphertext, aad)`. -/
def Ciphertext.openWith {K P : Type} [DecidableEq K] (c : Ciphertext K P) (key : K) (nonce : Nat)
    (aad : String) : Except Go.Error P :=
  if c.key = key ∧ c.nonce = nonce ∧ c.aad = aad then .ok c.plaintext
  else .error (.driver "cipher: message authentication failed")

/-! ## The vault -/

/-- A hybrid X25519 and ML-KEM-768 keypair. -/
structure Vault where
  mlkemDK : DecapsulationKey
  x25519Priv : X25519Key
  deriving Repr, DecidableEq

/-- `DeriveVault` derives the vault keypair from a 32-byte master key. -/
def deriveVault (masterKey : Bytes) : Except Go.Error Vault :=
  if masterKey.length ≠ 32 then
    .error (.new ("pqcrypt: master key must be 32 bytes, got " ++ toString masterKey.length))
  else .ok ⟨⟨masterKey⟩, .derived masterKey⟩

/-- The parts of an envelope behind its algorithm. -/
structure Envelope where
  salt : Nat
  mlkemCT : KemCiphertext
  xEphPub : X25519Key
  wrapNonce : Nat
  wrappedDEK : Ciphertext WrapKey Nat
  payloadNonce : Nat
  payloadCT : Ciphertext Nat Bytes
  deriving DecidableEq

/-- A text of the payload column, as `Open` reads it. -/
inductive EnvelopeText
  /-- A text without the prefix, the empty one among them. -/
  | plain
  | undecodable
  | short
  | envelope (alg : Nat) (e : Envelope)
  deriving DecidableEq

/-- `algHybridX25519MLKEM768`. -/
def algHybridX25519MLKEM768 : Nat := 1

/-- What `Seal` draws from `crypto/rand`, in the order it draws it. -/
structure Draws where
  encapsulation : Nat
  ephemeral : Nat
  salt : Nat
  dek : Nat
  wrapNonce : Nat
  payloadNonce : Nat
  deriving Repr, DecidableEq

/-- `Seal` with its draws: the envelope of a plaintext, bound to the additional data. -/
def Vault.sealWith (v : Vault) (d : Draws) (plaintext : Bytes) (aad : String) : EnvelopeText :=
  let mlkemCT : KemCiphertext := ⟨v.mlkemDK, d.encapsulation⟩
  let xEphPriv : X25519Key := .ephemeral d.ephemeral
  let kek : WrapKey := ⟨.agreed mlkemCT, xEphPriv.ecdh v.x25519Priv, d.salt⟩
  .envelope algHybridX25519MLKEM768 {
    salt := d.salt
    mlkemCT
    xEphPub := xEphPriv
    wrapNonce := d.wrapNonce
    wrappedDEK := ⟨kek, d.wrapNonce, d.dek, aad⟩
    payloadNonce := d.payloadNonce
    payloadCT := ⟨d.dek, d.payloadNonce, plaintext, aad⟩ }

/-- `Open` behind the algorithm: unwrap the data key, then open the payload. -/
def Vault.openEnvelope (v : Vault) (e : Envelope) (aad : String) : Except Go.Error Bytes := do
  let kek : WrapKey := ⟨v.mlkemDK.decapsulate e.mlkemCT, v.x25519Priv.ecdh e.xEphPub, e.salt⟩
  let dek ← (e.wrappedDEK.openWith kek e.wrapNonce aad).mapError fun err =>
    .wrap ("pqcrypt: unwrap data key failed " ++
      "(wrong vault key, tampered data, or mismatched aad): ") err ""
  (e.payloadCT.openWith dek e.payloadNonce aad).mapError fun err =>
    .wrap "pqcrypt: decrypt failed (tampered data or mismatched aad): " err ""

/-- `Open` reverses `Seal`. -/
def Vault.openText (v : Vault) (t : EnvelopeText) (aad : String) : Except Go.Error Bytes :=
  match t with
  | .plain => .error (.new "pqcrypt: not a pqenc:v1: envelope")
  | .undecodable => .error (.wrap "pqcrypt: decode envelope: " (.driver "illegal base64 data") "")
  | .short => .error (.new "pqcrypt: envelope too short")
  | .envelope alg e =>
    if alg ≠ algHybridX25519MLKEM768 then
      .error (.new ("pqcrypt: unsupported algorithm " ++ toString alg))
    else v.openEnvelope e aad

/-! ## What opens -/

theorem decapsulate_eq_agreed {dk : DecapsulationKey} {c : KemCiphertext} :
    dk.decapsulate c = .agreed c ↔ c.recipient = dk := by
  unfold DecapsulationKey.decapsulate
  split
  · next h => exact iff_of_true rfl h
  · next h => exact iff_of_false nofun h

/-- Two keys agree with an ephemeral one on the same secret when they are the same key. -/
theorem ecdh_eq {a b e : X25519Key} : a.ecdh e = e.ecdh b ↔ a = b := by
  unfold X25519Key.ecdh
  rw [Sym2.eq_swap, Sym2.congr_right]

theorem openWith_eq_ok {K P : Type} [DecidableEq K] {c : Ciphertext K P} {key : K} {nonce : Nat}
    {aad : String} {p : P} : c.openWith key nonce aad = .ok p ↔
      (c.key = key ∧ c.nonce = nonce ∧ c.aad = aad) ∧ c.plaintext = p := by
  unfold Ciphertext.openWith
  split
  · next h => simp only [h, and_self, true_and, Except.ok.injEq]
  · next h => exact iff_of_false nofun fun hp => h hp.1

/-- **What was sealed opens** under the keypair and the additional data it was sealed with, to the
plaintext, and under no others. -/
theorem openText_sealWith {v v' : Vault} {d : Draws} {plaintext p : Bytes} {aad aad' : String} :
    v'.openText (v.sealWith d plaintext aad) aad' = .ok p ↔
      v' = v ∧ aad' = aad ∧ p = plaintext := by
  obtain ⟨dk, x⟩ := v
  obtain ⟨dk', x'⟩ := v'
  simp only [Vault.sealWith, Vault.openText, Vault.openEnvelope, ne_eq, not_true_eq_false, if_false,
    Go.bind_eq_ok, Go.mapError_eq_ok, openWith_eq_ok, WrapKey.mk.injEq, Vault.mk.injEq]
  constructor
  · rintro ⟨dek, ⟨⟨⟨hkem, hx, _⟩, _, haad⟩, rfl⟩, _, hp⟩
    exact ⟨⟨(decapsulate_eq_agreed.mp hkem.symm).symm, ecdh_eq.mp hx.symm⟩, haad.symm, hp.symm⟩
  · rintro ⟨⟨rfl, rfl⟩, rfl, rfl⟩
    have hkem : dk'.decapsulate ⟨dk', d.encapsulation⟩ = .agreed ⟨dk', d.encapsulation⟩ :=
      decapsulate_eq_agreed.mpr rfl
    have hx := (ecdh_eq (a := x') (e := .ephemeral d.ephemeral)).mpr rfl
    simp [hkem, hx]

/-- A scrubbed column opens as nothing. -/
theorem openText_plain (v : Vault) (aad : String) (p : Bytes) :
    v.openText .plain aad ≠ .ok p := nofun

end Goca.Pqcrypt
