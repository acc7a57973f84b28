import Mathlib.Data.List.GetD
import Mathlib.Data.Set.Insert
import Goca.Laws.Opening
import Goca.Vault.Envelope

/-!
# What an envelope that opens was sealed with

`Seal` binds a plaintext to a keypair and to additional data through two encapsulated secrets and
two authenticated encryptions. With the cryptographic packages ideal, every envelope that opens was
sealed, under that keypair, with that additional data, and its bytes are the sealed ones but for one
field: the ephemeral X25519 key goes into the secret that it agrees on and into nothing else, and
X25519 ignores a bit of it.

Ideal is said relative to the history of all calls of `Seal`, anyone's: `Ideal` is what the packages
promise about the values in that history, for inputs of the sizes that `Seal` and `Open` give them.
The history is all use of AES-GCM.

- `openBytes_iff`: an envelope opens exactly when it carries the fields of a sealing, with an
  ephemeral key that agrees on the same secret.
- `envelopes_bound_iff`: it carries the sealed bytes, exactly when its ephemeral key is the one that
  was sealed with its ML-KEM ciphertext.
- `openBytes_simulates`: of sealed envelopes, the bytes open as their parts do in the model that the
  secret manager is built on.
-/

set_option autoImplicit false

namespace Goca.Pqcrypt.Wire

/-! ## Sealings -/

/-- A call of `Seal`. -/
structure Sealing where
  vault : Vault
  draws : Draws
  plaintext : Bytes
  aad : Bytes
  deriving DecidableEq

namespace Sealing

variable (P : Primitives) (s : Sealing)

def mlkemShared : Bytes := (P.encapsulate s.vault.mlkemDK s.draws.encapsulation).1

def mlkemCT : Bytes := (P.encapsulate s.vault.mlkemDK s.draws.encapsulation).2

def xEphPub : Bytes := P.publicKey s.draws.ephemeral

def x25519Shared : Bytes := P.x25519 s.draws.ephemeral (P.publicKey s.vault.x25519Priv)

def kek : Bytes := P.wrapKey (s.mlkemShared P) (s.x25519Shared P) s.draws.salt

def wrappedDEK : Bytes := P.gcmSeal (s.kek P) s.draws.wrapNonce s.draws.dek s.aad

def payloadCT : Bytes := P.gcmSeal s.draws.dek s.draws.payloadNonce s.plaintext s.aad

/-- The fields of the envelope, with some ephemeral key. -/
def fieldsWith (pub : Bytes) : Fields where
  salt := s.draws.salt
  mlkemCT := s.mlkemCT P
  xEphPub := pub
  wrapNonce := s.draws.wrapNonce
  wrappedDEK := s.wrappedDEK P
  payloadNonce := s.draws.payloadNonce
  payloadCT := s.payloadCT P

/-- The bytes of the envelope. -/
def bytes : Bytes := (s.fieldsWith P (s.xEphPub P)).bytes

end Sealing

/-- What ideal packages promise about a history of sealings. -/
structure Ideal (P : Primitives) (history : Set Sealing) : Prop where
  /-- Every keypair was derived of a master key. -/
  derived : ∀ s ∈ history, ∃ m, deriveVault P m = .ok s.vault
  /-- The sizes of what the packages return. -/
  hkdf_length : ∀ secret salt info n, n ≤ 255 * 32 → (P.hkdf secret salt info n).length = n
  ciphertext_length : ∀ seed draw, (P.encapsulate seed draw).2.length = kemCTSize
  decapsulate_length : ∀ seed c, (P.decapsulate seed c).length = 32
  publicKey_length : ∀ priv, (P.publicKey priv).length = x25519PubSize
  x25519_length : ∀ priv pub, (P.x25519 priv pub).length = 32
  gcmSeal_length : ∀ key nonce p aad, (P.gcmSeal key nonce p aad).length = p.length + gcmTagSize
  /-- ML-KEM: what was encapsulated is decapsulated, and by no other key or ciphertext; no two
  ciphertexts are equal. -/
  decapsulates : ∀ seed draw,
    P.decapsulate seed (P.encapsulate seed draw).2 = (P.encapsulate seed draw).1
  kem_binds : ∀ s ∈ history, ∀ m v c, deriveVault P m = .ok v → c.length = kemCTSize →
    P.decapsulate v.mlkemDK c = s.mlkemShared P → v.mlkemDK = s.vault.mlkemDK ∧ c = s.mlkemCT P
  kem_fresh : ∀ s ∈ history, ∀ s' ∈ history, s.mlkemCT P = s'.mlkemCT P → s = s'
  /-- X25519: two keys agree on a secret, which for generated keys is not zero. -/
  agrees : ∀ a b, P.x25519 a (P.publicKey b) = P.x25519 b (P.publicKey a)
  nonzero : ∀ s ∈ history, (s.x25519Shared P).all (· == 0) = false
  /-- HKDF: different master keys have different seeds, and a wrapping key of the history has no
  other input. -/
  seed_binds : ∀ m m' : Bytes, m.length = 32 → m'.length = 32 →
    P.hkdf m hkdfSalt "mlkem768-seed" 64 = P.hkdf m' hkdfSalt "mlkem768-seed" 64 → m = m'
  kdf_binds : ∀ s ∈ history, ∀ secret salt : Bytes, secret.length = 64 → salt.length = saltSize →
    P.hkdf secret salt "dek-wrap" 32 = s.kek P →
      secret = s.mlkemShared P ++ s.x25519Shared P ∧ salt = s.draws.salt
  /-- A data key is drawn: no wrapping key is one. -/
  dek_fresh : ∀ s ∈ history, ∀ secret salt : Bytes, secret.length = 64 → salt.length = saltSize →
    P.hkdf secret salt "dek-wrap" 32 ≠ s.draws.dek
  /-- AES-GCM: what was sealed opens, and nothing else does. The history is all use of it: nobody
  encrypts with it but in a call of `Seal`. -/
  unwraps : ∀ s ∈ history,
    P.gcmOpen (s.kek P) s.draws.wrapNonce (s.wrappedDEK P) s.aad = some s.draws.dek
  decrypts : ∀ s ∈ history,
    P.gcmOpen s.draws.dek s.draws.payloadNonce (s.payloadCT P) s.aad = some s.plaintext
  sealed : ∀ key nonce c aad p, P.gcmOpen key nonce c aad = some p →
    ∃ s ∈ history, aad = s.aad ∧
      ((key = s.kek P ∧ nonce = s.draws.wrapNonce ∧ c = s.wrappedDEK P ∧ p = s.draws.dek) ∨
        (key = s.draws.dek ∧ nonce = s.draws.payloadNonce ∧ c = s.payloadCT P ∧
          p = s.plaintext))
  dek_unique : ∀ s ∈ history, ∀ s' ∈ history,
    (s.draws.dek : Bytes) = s'.draws.dek → s = s'

/-! ## The layout -/

/-- The fields have their sizes. -/
structure Fields.Sized (f : Fields) : Prop where
  salt : f.salt.length = 32
  mlkemCT : f.mlkemCT.length = 1088
  xEphPub : f.xEphPub.length = 32
  wrapNonce : f.wrapNonce.length = 12
  wrappedDEK : f.wrappedDEK.length = 48
  payloadNonce : f.payloadNonce.length = 12

theorem Fields.Sized.bytes_length {f : Fields} (h : f.Sized) :
    headerSize + gcmNonceSize ≤ f.bytes.length := by
  show 1225 ≤ f.bytes.length
  unfold Fields.bytes
  simp only [List.length_append, List.length_singleton, h.salt, h.mlkemCT, h.xEphPub, h.wrapNonce,
    h.wrappedDEK, h.payloadNonce]
  omega

theorem drop_of_append {α : Type} {l a t : List α} {m n : Nat} (h : l.drop m = a ++ t)
    (ha : a.length = n) : l.drop (m + n) = t := by
  rw [← List.drop_drop, h, List.drop_left' ha]

/-- Cutting what was laid out gives the fields back. -/
theorem fields_bytes {f : Fields} (h : f.Sized) : fields f.bytes = f := by
  have h₁ : f.bytes.drop 1 = f.salt ++ (f.mlkemCT ++ (f.xEphPub ++ (f.wrapNonce ++
      (f.wrappedDEK ++ (f.payloadNonce ++ f.payloadCT))))) := by
    unfold Fields.bytes
    simp only [List.append_assoc]
    rfl
  have h₂ := drop_of_append h₁ h.salt
  have h₃ := drop_of_append h₂ h.mlkemCT
  have h₄ := drop_of_append h₃ h.xEphPub
  have h₅ := drop_of_append h₄ h.wrapNonce
  have h₆ := drop_of_append h₅ h.wrappedDEK
  have h₇ := drop_of_append h₆ h.payloadNonce
  unfold fields
  rw [h₁, h₂, h₃, h₄, h₅, h₆, h₇, List.take_left' h.salt, List.take_left' h.mlkemCT,
    List.take_left' h.xEphPub, List.take_left' h.wrapNonce, List.take_left' h.wrappedDEK,
    List.take_left' h.payloadNonce]

theorem take_append_drop_add {α : Type} (l : List α) (m n : Nat) :
    (l.drop m).take n ++ l.drop (m + n) = l.drop m := by
  rw [← List.drop_drop, List.take_append_drop]

/-- Laying out what was cut gives the bytes back. -/
theorem bytes_fields {raw : Bytes} (halg : raw.headD 0 = algHybridX25519MLKEM768)
    (hne : raw ≠ []) : (fields raw).bytes = raw := by
  have hhead : [algHybridX25519MLKEM768] ++ raw.drop 1 = raw := by
    cases raw with
    | nil => exact absurd rfl hne
    | cons b rest =>
      obtain rfl : b = algHybridX25519MLKEM768 := halg
      rfl
  unfold Fields.bytes fields
  simp only [List.append_assoc]
  rw [take_append_drop_add raw 1213 12, take_append_drop_add raw 1165 48,
    take_append_drop_add raw 1153 12, take_append_drop_add raw 1121 32,
    take_append_drop_add raw 33 1088, take_append_drop_add raw 1 32, hhead]

theorem fields_sized {raw : Bytes} (h : headerSize + gcmNonceSize ≤ raw.length) :
    (fields raw).Sized := by
  have hlen : 1225 ≤ raw.length := h
  unfold fields
  constructor <;> (dsimp only; rw [List.length_take, List.length_drop]; omega)

/-! ## What opens -/

theorem Run.bind_eq_ok {α β : Type} {x : Run α} {f : α → Run β} {b : β} :
    (x >>= f) = .ofExcept (.ok b) ↔ ∃ a, x = .ofExcept (.ok a) ∧ f a = .ofExcept (.ok b) := by
  constructor
  · intro h
    cases x with
    | none => cases h
    | some r =>
      cases r with
      | error e => cases h
      | ok a => exact ⟨a, rfl, h⟩
  · rintro ⟨a, rfl, h⟩
    exact h

theorem wrapping_eq_ok {α : Type} {text : String} {x : Except Go.Error α} {a : α} :
    wrapping text x = .ofExcept (.ok a) ↔ x = .ok a := by
  cases x with
  | ok b =>
    constructor
    · intro h
      cases h
      rfl
    · intro h
      cases h
      rfl
  | error e => exact iff_of_false nofun nofun

theorem ofExcept_eq_ok {α : Type} {x : Except Go.Error α} {a : α} :
    Run.ofExcept x = .ofExcept (.ok a) ↔ x = .ok a := by
  constructor
  · intro h
    cases h
    rfl
  · rintro rfl
    rfl

/-- A handler that throws again recovers nothing. -/
theorem tryCatch_throw_eq_ok {α : Type} {x : Run α} {f : Go.Error → Go.Error} {a : α} :
    tryCatch x (fun e => throw (f e)) = .ofExcept (.ok a) ↔ x = .ofExcept (.ok a) := by
  cases x with
  | none => exact iff_of_false nofun nofun
  | some r =>
    cases r with
    | error e => exact iff_of_false nofun nofun
    | ok b => exact Iff.rfl

theorem newGCM_eq_ok {key k : Bytes} (h : key.length = 32) :
    Primitives.newGCM key = .ok k ↔ k = key := by
  unfold Primitives.newGCM
  rw [if_pos (by rw [h]; decide), Except.ok.injEq, eq_comm]

theorem aeadOpen_eq_ok {P : Primitives} {key nonce c aad p : Bytes} :
    P.aeadOpen key nonce c aad = .ofExcept (.ok p) ↔ nonce.length = gcmNonceSize ∧
      gcmTagSize ≤ c.length ∧ P.gcmOpen key nonce c aad = some p := by
  unfold Primitives.aeadOpen
  by_cases hnonce : nonce.length = gcmNonceSize
  · rw [if_neg (not_not.mpr hnonce)]
    by_cases htag : c.length < gcmTagSize
    · rw [if_pos htag]
      exact iff_of_false nofun fun h => absurd h.2.1 (Nat.not_le.mpr htag)
    · rw [if_neg htag]
      cases hopen : P.gcmOpen key nonce c aad with
      | none => exact iff_of_false nofun nofun
      | some plaintext =>
        constructor
        · intro h
          cases h
          exact ⟨hnonce, Nat.not_lt.mp htag, rfl⟩
        · rintro ⟨_, _, h⟩
          cases h
          rfl
  · rw [if_pos hnonce]
    exact iff_of_false nofun fun h => hnonce h.1

/-- An envelope carries these bytes. -/
def Carries (envelope raw : Bytes) : Prop :=
  ∃ text, envelope = envelopePrefix ++ text ∧ Go.Base64.decode text = .ok raw

theorem Carries.unique {envelope raw raw' : Bytes} (h : Carries envelope raw)
    (h' : Carries envelope raw') : raw = raw' := by
  obtain ⟨text, rfl, hdecode⟩ := h
  obtain ⟨text', htext, hdecode'⟩ := h'
  obtain rfl := List.append_cancel_left htext
  exact Except.ok.inj (hdecode.symm.trans hdecode')

/-- The wrapping key that `Open` derives from the fields. -/
def Vault.kekOf (P : Primitives) (v : Vault) (f : Fields) : Bytes :=
  P.wrapKey (P.decapsulate v.mlkemDK f.mlkemCT) (P.x25519 v.x25519Priv f.xEphPub) f.salt

section

variable {P : Primitives} {history : Set Sealing} (hP : Ideal P history)

include hP

theorem wrapKey_length (a b salt : Bytes) : (P.wrapKey a b salt).length = 32 :=
  hP.hkdf_length _ _ _ _ (by decide)

/-- Fields open when both ciphertexts do. -/
theorem openFields_eq_ok {v : Vault} {f : Fields} {aad p : Bytes} (hf : f.Sized) :
    v.openFields P f aad = .ofExcept (.ok p) ↔
      (P.x25519 v.x25519Priv f.xEphPub).all (· == 0) = false ∧
      ∃ dek, P.gcmOpen (v.kekOf P f) f.wrapNonce f.wrappedDEK aad = some dek ∧
        (∃ k, Primitives.newGCM dek = .ok k ∧ gcmTagSize ≤ f.payloadCT.length ∧
          P.gcmOpen k f.payloadNonce f.payloadCT aad = some p) := by
  have hkem : P.decapsulateChecked v.mlkemDK f.mlkemCT =
      .ok (P.decapsulate v.mlkemDK f.mlkemCT) := by
    unfold Primitives.decapsulateChecked
    exact if_neg (not_not.mpr hf.mlkemCT)
  have hpub : Primitives.newPublicKey f.xEphPub = .ok f.xEphPub := by
    unfold Primitives.newPublicKey
    exact if_neg (not_not.mpr hf.xEphPub)
  have hdh {x : Bytes} : P.ecdh v.x25519Priv f.xEphPub = .ok x ↔
      (P.x25519 v.x25519Priv f.xEphPub).all (· == 0) = false ∧
        x = P.x25519 v.x25519Priv f.xEphPub := by
    unfold Primitives.ecdh
    by_cases hzero : (P.x25519 v.x25519Priv f.xEphPub).all (· == 0) = true
    · rw [if_pos hzero, hzero]
      exact iff_of_false nofun nofun
    · rw [if_neg hzero, Except.ok.injEq, eq_comm]
      exact ⟨fun h => ⟨Bool.eq_false_iff.mpr hzero, h⟩, fun h => h.2⟩
  have hkekLength (x : Bytes) :
      (P.wrapKey (P.decapsulate v.mlkemDK f.mlkemCT) x f.salt).length = 32 := wrapKey_length hP ..
  unfold Vault.openFields
  simp only [Run.bind_eq_ok, wrapping_eq_ok, ofExcept_eq_ok, tryCatch_throw_eq_ok, aeadOpen_eq_ok,
    hkem, hpub, Except.ok.injEq]
  constructor
  · rintro ⟨_, rfl, _, rfl, x, hx, kek, hkek, dek, ⟨_, _, hdek⟩, k, hk, _, htag, hp⟩
    obtain ⟨hzero, rfl⟩ := hdh.mp hx
    obtain rfl := (newGCM_eq_ok (hkekLength _)).mp hkek
    exact ⟨hzero, dek, hdek, k, hk, htag, hp⟩
  · rintro ⟨hzero, dek, hdek, k, hk, htag, hp⟩
    refine ⟨_, rfl, _, rfl, _, hdh.mpr ⟨hzero, rfl⟩, _, (newGCM_eq_ok (hkekLength _)).mpr rfl,
      dek, ⟨hf.wrapNonce, ?_, hdek⟩, k, hk, hf.payloadNonce, htag, hp⟩
    rw [hf.wrappedDEK]
    decide

/-- The fields of a sealing have their sizes. -/
theorem Sealing.fieldsWith_sized (s : Sealing) {pub : Bytes} (h : pub.length = 32) :
    (s.fieldsWith P pub).Sized := by
  refine ⟨s.draws.salt.2, hP.ciphertext_length .., h, s.draws.wrapNonce.2, ?_,
    s.draws.payloadNonce.2⟩
  show (P.gcmSeal _ _ _ _).length = 48
  rw [hP.gcmSeal_length, s.draws.dek.2]
  rfl

/-- The secret of a sealing is what its ciphertext holds. -/
theorem Sealing.mlkemShared_eq (s : Sealing) :
    s.mlkemShared P = P.decapsulate s.vault.mlkemDK (s.mlkemCT P) :=
  (hP.decapsulates ..).symm

/-- The secrets that a wrapping key is derived of have 64 bytes together. -/
theorem secrets_length (seed c priv pub : Bytes) :
    (P.decapsulate seed c ++ P.x25519 priv pub).length = 64 := by
  rw [List.length_append, hP.decapsulate_length, hP.x25519_length]

/-- The wrapping key of a sealing comes of its own secrets and salt alone. -/
theorem kekOf_eq_iff {s : Sealing} (hs : s ∈ history) {m : Bytes} {v : Vault}
    (hv : deriveVault P m = .ok v) {f : Fields} (hf : f.Sized) :
    v.kekOf P f = s.kek P ↔ v.mlkemDK = s.vault.mlkemDK ∧ f.mlkemCT = s.mlkemCT P ∧
      P.x25519 v.x25519Priv f.xEphPub = s.x25519Shared P ∧ f.salt = s.draws.salt := by
  constructor
  · intro h
    obtain ⟨hsecret, hsalt⟩ := hP.kdf_binds s hs _ _ (secrets_length hP ..) hf.salt h
    have hshared : (s.mlkemShared P).length = 32 := by
      rw [s.mlkemShared_eq hP]
      exact hP.decapsulate_length ..
    obtain ⟨hkem, hx⟩ := List.append_inj hsecret
      ((hP.decapsulate_length ..).trans hshared.symm)
    obtain ⟨hdk, hct⟩ := hP.kem_binds s hs m v _ hv hf.mlkemCT hkem
    exact ⟨hdk, hct, hx, hsalt⟩
  · rintro ⟨hdk, hct, hx, hsalt⟩
    unfold Vault.kekOf Sealing.kek
    rw [hdk, hct, hx, hsalt, s.mlkemShared_eq hP]

/-- **What opens was sealed**: fields open exactly when they are those of a sealing under this
ML-KEM key and this additional data, with an ephemeral key that agrees on the same secret. -/
theorem openFields_iff {m : Bytes} {v : Vault} (hv : deriveVault P m = .ok v) {f : Fields}
    {aad p : Bytes} (hf : f.Sized) : v.openFields P f aad = .ofExcept (.ok p) ↔
      ∃ s ∈ history, s.vault.mlkemDK = v.mlkemDK ∧ s.aad = aad ∧ s.plaintext = p ∧
        P.x25519 v.x25519Priv f.xEphPub = s.x25519Shared P ∧
        f = s.fieldsWith P f.xEphPub := by
  have hfresh {s : Sealing} (hs : s ∈ history) : v.kekOf P f ≠ s.draws.dek :=
    hP.dek_fresh s hs _ _ (secrets_length hP ..) hf.salt
  rw [openFields_eq_ok hP hf]
  constructor
  · rintro ⟨_, dek, hdek, k, hk, _, hp⟩
    obtain ⟨s, hs, haad, ⟨hkek, hwrapNonce, hwrapped, rfl⟩ | ⟨hkey, _⟩⟩ := hP.sealed _ _ _ _ _ hdek
    · obtain ⟨hdk, hct, hx, hsalt⟩ := (kekOf_eq_iff hP hs hv hf).mp hkek
      obtain rfl := (newGCM_eq_ok s.draws.dek.2).mp hk
      obtain ⟨s', hs', _, ⟨hkey, _⟩ | ⟨hkey, hpayloadNonce, hpayload, rfl⟩⟩ :=
        hP.sealed _ _ _ _ _ hp
      · refine absurd hkey.symm (hP.dek_fresh s hs _ _ ?_ s'.draws.salt.2)
        show (_ ++ P.x25519 _ _).length = 64
        rw [s'.mlkemShared_eq hP]
        exact secrets_length hP ..
      · obtain rfl := hP.dek_unique s hs s' hs' hkey
        refine ⟨s, hs, hdk.symm, haad.symm, rfl, hx, ?_⟩
        obtain ⟨salt, ct, pub, wn, wrapped, pn, payload⟩ := f
        unfold Sealing.fieldsWith
        cases hct
        cases hsalt
        cases hwrapNonce
        cases hwrapped
        cases hpayloadNonce
        cases hpayload
        rfl
    · exact absurd hkey (hfresh hs)
  · rintro ⟨s, hs, hdk, rfl, rfl, hx, hfields⟩
    have hkek : v.kekOf P f = s.kek P := by
      rw [kekOf_eq_iff hP hs hv hf, hx, hfields]
      exact ⟨hdk.symm, rfl, rfl, rfl⟩
    rw [hx]
    refine ⟨hP.nonzero s hs, s.draws.dek, ?_, s.draws.dek, (newGCM_eq_ok s.draws.dek.2).mpr rfl,
      ?_, ?_⟩
    · rw [hkek, hfields]
      exact hP.unwraps s hs
    · rw [hfields]
      show gcmTagSize ≤ (P.gcmSeal _ _ _ _).length
      rw [hP.gcmSeal_length]
      exact Nat.le_add_left ..
    · rw [hfields]
      exact hP.decrypts s hs

/-! ## Envelopes -/

/-- `Seal` lays out the fields of the sealing. -/
theorem sealBytes_eq {s : Sealing} (hs : s ∈ history) :
    s.vault.sealBytes P s.draws s.plaintext s.aad =
      .ofExcept (.ok (envelopePrefix ++ Go.Base64.encode (s.bytes P))) := by
  have hdh : P.ecdh s.draws.ephemeral (P.publicKey s.vault.x25519Priv) =
      .ok (s.x25519Shared P) := by
    unfold Primitives.ecdh
    exact if_neg (Bool.eq_false_iff.mp (hP.nonzero s hs))
  have hkek : Primitives.newGCM (s.kek P) = .ok (s.kek P) :=
    (newGCM_eq_ok (wrapKey_length hP ..)).mpr rfl
  have hdek : Primitives.newGCM s.draws.dek = .ok (s.draws.dek : Bytes) :=
    (newGCM_eq_ok s.draws.dek.2).mpr rfl
  have hseal (key nonce p aad : Bytes) (h : nonce.length = gcmNonceSize) :
      P.aeadSeal key nonce p aad = .ofExcept (.ok (P.gcmSeal key nonce p aad)) := by
    unfold Primitives.aeadSeal
    exact if_neg (not_not.mpr h)
  unfold Vault.sealBytes
  rw [Run.bind_eq_ok]
  refine ⟨_, wrapping_eq_ok.mpr hdh, Run.bind_eq_ok.mpr ⟨_, ofExcept_eq_ok.mpr hkek, ?_⟩⟩
  refine Run.bind_eq_ok.mpr ⟨_, hseal _ _ _ _ s.draws.wrapNonce.2, ?_⟩
  refine Run.bind_eq_ok.mpr ⟨_, ofExcept_eq_ok.mpr hdek, ?_⟩
  exact Run.bind_eq_ok.mpr ⟨_, hseal _ _ _ _ s.draws.payloadNonce.2, rfl⟩

omit hP in
/-- An envelope that carries fields of their sizes opens as they do. -/
theorem openBytes_layout {v : Vault} {f : Fields} {text aad : Bytes} (hf : f.Sized)
    (h : Go.Base64.decode text = .ok f.bytes) :
    v.openBytes P (envelopePrefix ++ text) aad = v.openFields P f aad := by
  have hlen := hf.bytes_length
  have hraw : decodeEnvelope text = .ok
      ⟨f.bytes, List.replicate (Go.Base64.decodedLen text.length - f.bytes.length) 0⟩ :=
    decodeEnvelope_eq_ok.mpr ⟨h, rfl⟩
  rw [openBytes_append, hraw]
  show v.openDecoded P aad _ = _
  have halg : f.bytes.headD 0 = algHybridX25519MLKEM768 := rfl
  unfold Vault.openDecoded
  rw [if_neg (Nat.not_lt.mpr (Nat.le_trans (Nat.le_add_right ..) hlen)),
    if_neg (not_not.mpr halg), openRaw_eq hlen]
  exact congrArg (v.openFields P · aad) (fields_bytes hf)

omit hP in
/-- An envelope that opens carries fields of their sizes. -/
theorem layout_of_openBytes {v : Vault} {envelope aad p : Bytes}
    (h : v.openBytes P envelope aad = .ofExcept (.ok p)) :
    ∃ text f, envelope = envelopePrefix ++ text ∧ f.Sized ∧
      Go.Base64.decode text = .ok f.bytes ∧ v.openFields P f aad = .ofExcept (.ok p) := by
  by_cases hpre : envelopePrefix <+: envelope
  · obtain ⟨text, rfl⟩ := hpre
    rw [openBytes_append, Run.bind_eq_ok] at h
    obtain ⟨raw, hdecode, h⟩ := h
    obtain ⟨hraw, _⟩ := decodeEnvelope_eq_ok.mp (wrapping_eq_ok.mp hdecode)
    unfold Vault.openDecoded at h
    by_cases hshort : raw.bytes.length < headerSize
    · rw [if_pos hshort] at h
      cases h
    by_cases halg : raw.bytes.headD 0 = algHybridX25519MLKEM768
    · rw [if_neg hshort, if_neg (not_not.mpr halg)] at h
      by_cases hnonce : raw.bytes.length < headerSize + gcmNonceSize
      · rw [openRaw_panics (Nat.not_lt.mp hshort) hnonce] at h
        cases h
      · have hlen := Nat.not_lt.mp hnonce
        have hne : raw.bytes ≠ [] := by
          intro hnil
          rw [hnil] at hlen
          exact absurd hlen (by decide)
        rw [openRaw_eq hlen] at h
        refine ⟨text, fields raw.bytes, rfl, fields_sized hlen, ?_, h⟩
        rw [bytes_fields halg hne]
        exact hraw
    · rw [if_neg hshort, if_pos halg] at h
      cases h
  · rw [openBytes_plain P v aad hpre] at h
    cases h

/-- A keypair is known by its ML-KEM half. -/
theorem vault_eq {m m' : Bytes} {v v' : Vault} (hv : deriveVault P m = .ok v)
    (hv' : deriveVault P m' = .ok v') (h : v.mlkemDK = v'.mlkemDK) : v = v' := by
  unfold deriveVault at hv hv'
  by_cases hm : m.length = 32
  · by_cases hm' : m'.length = 32
    · rw [if_neg (not_not.mpr hm)] at hv
      rw [if_neg (not_not.mpr hm')] at hv'
      cases hv
      cases hv'
      rw [hP.seed_binds m m' hm hm' h]
    · rw [if_pos hm'] at hv'
      cases hv'
  · rw [if_pos hm] at hv
    cases hv

/-- An envelope opens exactly when it carries the fields of a sealing under this keypair and this
additional data, with an ephemeral key that agrees on the same secret. -/
theorem openBytes_iff {m : Bytes} {v : Vault} (hv : deriveVault P m = .ok v)
    {envelope aad p : Bytes} : v.openBytes P envelope aad = .ofExcept (.ok p) ↔
      ∃ s ∈ history, s.vault = v ∧ s.aad = aad ∧ s.plaintext = p ∧
        ∃ pub, pub.length = 32 ∧ P.x25519 v.x25519Priv pub = s.x25519Shared P ∧
          Carries envelope (s.fieldsWith P pub).bytes := by
  constructor
  · intro h
    obtain ⟨text, f, rfl, hf, hdecode, hopen⟩ := layout_of_openBytes h
    obtain ⟨s, hs, hdk, haad, hp, hx, hfields⟩ := (openFields_iff hP hv hf).mp hopen
    obtain ⟨m', hm'⟩ := hP.derived s hs
    refine ⟨s, hs, vault_eq hP hm' hv hdk, haad, hp, f.xEphPub, hf.xEphPub, hx, text, rfl, ?_⟩
    rw [← hfields]
    exact hdecode
  · rintro ⟨s, hs, rfl, haad, hp, pub, hpub, hx, text, rfl, hdecode⟩
    have hsized := s.fieldsWith_sized hP hpub
    rw [openBytes_layout hsized hdecode, openFields_iff hP hv hsized]
    exact ⟨s, hs, rfl, haad, hp, hx, rfl⟩

/-- The ephemeral key that is sealed agrees on the sealed secret. -/
theorem Sealing.agrees (s : Sealing) :
    (s.xEphPub P).length = 32 ∧ P.x25519 s.vault.x25519Priv (s.xEphPub P) = s.x25519Shared P :=
  ⟨hP.publicKey_length _, hP.agrees _ _⟩

/-- **Envelopes are bound**: what `Seal` returns opens to its plaintext; and an envelope that opens
was sealed, to that plaintext, under that keypair and with that additional data, and carries the
sealed bytes exactly when it carries the ephemeral key of some sealing along with its ML-KEM
ciphertext. -/
theorem envelopes_bound_iff :
    (∀ s ∈ history, ∃ envelope,
      s.vault.sealBytes P s.draws s.plaintext s.aad = .ofExcept (.ok envelope) ∧
      s.vault.openBytes P envelope s.aad = .ofExcept (.ok s.plaintext)) ∧
    ∀ m v envelope aad p, deriveVault P m = .ok v →
      v.openBytes P envelope aad = .ofExcept (.ok p) →
      (∃ s ∈ history, s.vault = v ∧ s.aad = aad ∧ s.plaintext = p) ∧
      ((∃ s ∈ history, s.vault = v ∧ s.aad = aad ∧ s.plaintext = p ∧
          Carries envelope (s.bytes P)) ↔
        ∃ s ∈ history, ∃ raw, Carries envelope raw ∧ (fields raw).mlkemCT = s.mlkemCT P ∧
          (fields raw).xEphPub = s.xEphPub P) := by
  constructor
  · intro s hs
    obtain ⟨m, hm⟩ := hP.derived s hs
    obtain ⟨hlen, hx⟩ := s.agrees hP
    refine ⟨_, sealBytes_eq hP hs, (openBytes_iff hP hm).mpr ?_⟩
    exact ⟨s, hs, rfl, rfl, rfl, _, hlen, hx, _, rfl, Go.Base64.decode_encode _⟩
  · intro m v envelope aad p hv hopen
    obtain ⟨s, hs, rfl, rfl, rfl, pub, hpub, _, hcarries⟩ := (openBytes_iff hP hv).mp hopen
    have hfields := fields_bytes (s.fieldsWith_sized hP hpub)
    refine ⟨⟨s, hs, rfl, rfl, rfl⟩, ?_⟩
    constructor
    · rintro ⟨s', hs', _, _, _, hcarries'⟩
      refine ⟨s', hs', _, hcarries', ?_⟩
      have hfields' := fields_bytes (s'.fieldsWith_sized hP (s'.agrees hP).1)
      rw [Sealing.bytes, hfields']
      exact ⟨rfl, rfl⟩
    · rintro ⟨s', hs', raw, hcarries', hct, hpub'⟩
      obtain rfl := hcarries.unique hcarries'
      rw [hfields] at hct hpub'
      obtain rfl := hP.kem_fresh s hs s' hs' hct
      refine ⟨s, hs, rfl, rfl, rfl, ?_⟩
      obtain rfl : pub = s.xEphPub P := hpub'
      exact hcarries

/-- What was sealed opens under its own keypair and additional data, and no others. -/
theorem openBytes_sealed {s : Sealing} (hs : s ∈ history) {m : Bytes} {v : Vault}
    (hv : deriveVault P m = .ok v) {aad p : Bytes} :
    v.openBytes P (envelopePrefix ++ Go.Base64.encode (s.bytes P)) aad = .ofExcept (.ok p) ↔
      v = s.vault ∧ aad = s.aad ∧ p = s.plaintext := by
  have hcarries : Carries (envelopePrefix ++ Go.Base64.encode (s.bytes P)) (s.bytes P) :=
    ⟨_, rfl, Go.Base64.decode_encode _⟩
  obtain ⟨hlen, hx⟩ := s.agrees hP
  rw [openBytes_iff hP hv]
  constructor
  · rintro ⟨s', hs', rfl, rfl, rfl, pub, hpub, _, hcarries'⟩
    have hbytes := congrArg fields (hcarries.unique hcarries')
    rw [Sealing.bytes, fields_bytes (s.fieldsWith_sized hP hlen),
      fields_bytes (s'.fieldsWith_sized hP hpub)] at hbytes
    obtain rfl := hP.kem_fresh s hs s' hs' (congrArg Fields.mlkemCT hbytes)
    exact ⟨rfl, rfl, rfl⟩
  · rintro ⟨rfl, rfl, rfl⟩
    exact ⟨s, hs, rfl, rfl, rfl, _, hlen, hx, hcarries⟩

/-- The bytes of an additional data. -/
def aadBytes (aad : String) : Bytes := aad.toByteArray.data.toList

omit hP in
theorem aadBytes_inj {a b : String} : aadBytes a = aadBytes b ↔ a = b := by
  unfold aadBytes
  rw [Array.toList_inj, ← String.toByteArray_inj, ByteArray.ext_iff]

/-- Two keypairs are equal when their master keys are, in either model. -/
theorem deriveVault_eq_iff {m m' : Bytes} {v v' : Vault} {w w' : Pqcrypt.Vault}
    (hv : deriveVault P m = .ok v) (hv' : deriveVault P m' = .ok v')
    (hw : Pqcrypt.deriveVault m = .ok w) (hw' : Pqcrypt.deriveVault m' = .ok w') :
    v' = v ↔ w' = w := by
  unfold deriveVault at hv hv'
  unfold Pqcrypt.deriveVault at hw hw'
  by_cases hm : m.length = 32
  · by_cases hm' : m'.length = 32
    · rw [if_neg (not_not.mpr hm)] at hv hw
      rw [if_neg (not_not.mpr hm')] at hv' hw'
      cases hv
      cases hv'
      cases hw
      cases hw'
      constructor
      · intro h
        rw [hP.seed_binds m' m hm' hm (congrArg Vault.mlkemDK h)]
      · intro h
        cases h
        rfl
    · rw [if_pos hm'] at hv'
      cases hv'
  · rw [if_pos hm] at hv
    cases hv

/-- **The bytes simulate the parts**: what was sealed with the bytes of a plaintext and of
additional data opens under them exactly when the envelope of the same parts opens. -/
theorem openBytes_simulates {m m' : Bytes} {v v' : Vault} {w w' : Pqcrypt.Vault}
    (hv : deriveVault P m = .ok v) (hv' : deriveVault P m' = .ok v')
    (hw : Pqcrypt.deriveVault m = .ok w) (hw' : Pqcrypt.deriveVault m' = .ok w')
    {d : Draws} {plaintext p : Bytes} {aad aad' : String}
    (hs : ⟨v, d, plaintext, aadBytes aad⟩ ∈ history) (d' : Pqcrypt.Draws) :
    v'.openBytes P (envelopePrefix ++ Go.Base64.encode
        (Sealing.bytes P ⟨v, d, plaintext, aadBytes aad⟩)) (aadBytes aad') = .ofExcept (.ok p) ↔
      w'.openText (w.sealWith d' plaintext aad) aad' = .ok p := by
  rw [openBytes_sealed hP hs hv', openText_sealWith, aadBytes_inj,
    deriveVault_eq_iff hP hv hv' hw hw']

end

/-! ## The same secret from another key -/

section

/-- A byte string of some length. -/
def padded (n : Nat) (b : Bytes) : Bytes := (b ++ List.replicate n 0).take n

theorem padded_length (n : Nat) (b : Bytes) : (padded n b).length = n := by
  unfold padded
  rw [List.length_take, List.length_append, List.length_replicate]
  omega

/-- The coordinate of an X25519 key: 32 bytes, without the highest bit. -/
def coordinate (b : Bytes) : Bytes :=
  padded 31 b ++ [(padded 32 b).getD 31 0 &&& 127]

/-- A run of one byte. -/
abbrev fill (n : Nat) (b : UInt8) : Bytes := List.replicate n b

/-- The secrets that the packages of the example know of. -/
def known : List UInt8 := [1, 2]

/-- The sealing of a secret's first version, each secret under a keypair of its own. -/
def sealingOf (id : UInt8) : Sealing where
  vault := ⟨fill 32 (10 * id) ++ fill 32 0, fill 32 (10 * id)⟩
  draws := {
    encapsulation := []
    ephemeral := fill 32 (10 * id + 1)
    salt := ⟨fill 32 (10 * id + 2), rfl⟩
    dek := ⟨fill 32 (10 * id + 3), rfl⟩
    wrapNonce := ⟨fill 12 (10 * id + 4), rfl⟩
    payloadNonce := ⟨fill 12 (10 * id + 5), rfl⟩ }
  plaintext := Go.Base64.ascii "password of " ++ [48 + id]
  aad := Go.Base64.ascii "goca/secret/v1|" ++ [48 + id] ++ Go.Base64.ascii "|1"

/-- The history of the example. -/
def knownSealings : Set Sealing := {s | ∃ id ∈ known, sealingOf id = s}

/-- What a secret's sealing encapsulates, and in which ciphertext. -/
def encapsulated (id : UInt8) : Bytes × Bytes := (fill 32 (10 * id + 6), fill 1088 (10 * id + 7))

/-- The input of the wrapping key of a sealing. -/
def wrapInput (id : UInt8) : Bytes × Bytes :=
  (fill 32 (10 * id + 6) ++ fill 32 (20 * id + 1), fill 32 (10 * id + 2))

/-- What AES-GCM is used on in a sealing: the data key under the wrapping key, and the plaintext
under the data key. -/
def gcmUses (id : UInt8) : List (Bytes × Bytes × Bytes × Bytes) :=
  let s := sealingOf id
  [(fill 32 (10 * id + 8), s.draws.wrapNonce, s.aad, s.draws.dek),
    (s.draws.dek, s.draws.payloadNonce, s.aad, s.plaintext)]

/-- The tag of every ciphertext. -/
def tag : Bytes := fill 16 7

/-- Packages that know these sealings. Keys agree on the sum of their coordinates. -/
def knowing : Primitives where
  hkdf secret salt info n :=
    if info = "dek-wrap" then
      (known.find? fun id => wrapInput id = (secret, salt)).elim (padded n []) fun id =>
        padded n (fill 32 (10 * id + 8))
    else padded n secret
  encapsulate seed _ :=
    (known.find? fun id => (sealingOf id).vault.mlkemDK = seed).elim (fill 32 0, fill 1088 0)
      encapsulated
  decapsulate seed c :=
    (known.find? fun id => (sealingOf id).vault.mlkemDK = seed ∧ (encapsulated id).2 = c).elim
      (fill 32 0) fun id => (encapsulated id).1
  publicKey := coordinate
  x25519 priv pub := List.zipWith (· + ·) (coordinate priv) (coordinate pub)
  gcmSeal _ _ plaintext _ := plaintext ++ tag
  gcmOpen key nonce c aad :=
    ((known.flatMap gcmUses).find? fun u =>
      u.1 = key ∧ u.2.1 = nonce ∧ u.2.2.1 = aad ∧ u.2.2.2 ++ tag = c).map (·.2.2.2)

theorem coordinate_length (b : Bytes) : (coordinate b).length = 32 := by
  unfold coordinate
  rw [List.length_append, padded_length, List.length_singleton]

theorem coordinate_coordinate (b : Bytes) : coordinate (coordinate b) = coordinate b := by
  have hlow : padded 31 (coordinate b) = padded 31 b := by
    unfold padded coordinate
    rw [List.append_assoc]
    exact List.take_left' (padded_length 31 b)
  have hfull : padded 32 (coordinate b) = coordinate b := by
    unfold padded
    exact List.take_left' (coordinate_length b)
  have hhigh : (coordinate b).getD 31 0 = (padded 32 b).getD 31 0 &&& 127 := by
    unfold coordinate
    rw [List.getD_append_right _ _ _ _ (padded_length 31 b).le, padded_length]
    rfl
  rw [coordinate, hlow, hfull, hhigh, UInt8.and_assoc]
  rfl

theorem find_known (p : UInt8 → Prop) [DecidablePred p] :
    (known.find? (p ·) = none ∧ ∀ id ∈ known, ¬ p id) ∨
      ∃ id ∈ known, p id ∧ known.find? (p ·) = some id := by
  cases h : known.find? (p ·) with
  | none => exact .inl ⟨rfl, fun id hid hp => List.find?_eq_none.mp h id hid (decide_eq_true hp)⟩
  | some id =>
    have hp : p id := of_decide_eq_true (List.find?_some (p := fun id => decide (p id)) h)
    exact .inr ⟨id, List.mem_of_find?_eq_some h, hp, rfl⟩

/-- What the sealings share, send, agree on and wrap with. -/
theorem sealingOf_known : ∀ id ∈ known,
    (sealingOf id).mlkemShared knowing = fill 32 (10 * id + 6) ∧
    (sealingOf id).mlkemCT knowing = fill 1088 (10 * id + 7) ∧
    (sealingOf id).x25519Shared knowing = fill 32 (20 * id + 1) ∧
    (sealingOf id).kek knowing = fill 32 (10 * id + 8) := by
  decide +kernel

theorem mlkemShared_known {id : UInt8} (h : id ∈ known) :
    (sealingOf id).mlkemShared knowing = fill 32 (10 * id + 6) := (sealingOf_known id h).1

theorem mlkemCT_known {id : UInt8} (h : id ∈ known) :
    (sealingOf id).mlkemCT knowing = fill 1088 (10 * id + 7) := (sealingOf_known id h).2.1

theorem x25519Shared_known {id : UInt8} (h : id ∈ known) :
    (sealingOf id).x25519Shared knowing = fill 32 (20 * id + 1) := (sealingOf_known id h).2.2.1

theorem kek_known {id : UInt8} (h : id ∈ known) :
    (sealingOf id).kek knowing = fill 32 (10 * id + 8) := (sealingOf_known id h).2.2.2

/-- What is derived of secrets: the wrapping key of a sealing, of its own secrets and salt, or
zeros. -/
theorem hkdf_knowing (secret salt : Bytes) :
    (∃ id ∈ known, knowing.hkdf secret salt "dek-wrap" 32 = fill 32 (10 * id + 8) ∧
      wrapInput id = (secret, salt)) ∨
    knowing.hkdf secret salt "dek-wrap" 32 = fill 32 0 := by
  have hdef : knowing.hkdf secret salt "dek-wrap" 32 =
      (known.find? fun id => wrapInput id = (secret, salt)).elim (padded 32 []) fun id =>
        padded 32 (fill 32 (10 * id + 8)) := by
    unfold knowing
    dsimp only
    rw [if_pos rfl]
  rw [hdef]
  rcases find_known fun id => wrapInput id = (secret, salt) with ⟨h, _⟩ | ⟨id, hid, hin, h⟩
  · rw [h]
    exact .inr rfl
  · rw [h]
    exact .inl ⟨id, hid, rfl, hin⟩

/-- What is decapsulated: the secret of a sealing, by its own key and ciphertext, or zeros. -/
theorem decapsulate_knowing (seed c : Bytes) :
    (∃ id ∈ known, knowing.decapsulate seed c = fill 32 (10 * id + 6) ∧
      (sealingOf id).vault.mlkemDK = seed ∧ fill 1088 (10 * id + 7) = c) ∨
    (knowing.decapsulate seed c = fill 32 0 ∧
      ∀ id ∈ known, ¬ ((sealingOf id).vault.mlkemDK = seed ∧ fill 1088 (10 * id + 7) = c)) := by
  have hdef : knowing.decapsulate seed c = (known.find? fun id =>
      (sealingOf id).vault.mlkemDK = seed ∧ fill 1088 (10 * id + 7) = c).elim (fill 32 0) fun id =>
        fill 32 (10 * id + 6) := rfl
  rw [hdef]
  rcases find_known fun id => (sealingOf id).vault.mlkemDK = seed ∧ fill 1088 (10 * id + 7) = c
    with ⟨h, hnone⟩ | ⟨id, hid, hin, h⟩
  · rw [h]
    exact .inr ⟨rfl, hnone⟩
  · rw [h]
    exact .inl ⟨id, hid, rfl, hin⟩

/-- What is encapsulated: by the key of a sealing, what that sealing did, or zeros. -/
theorem encapsulate_knowing (seed draw : Bytes) :
    (∃ id ∈ known, knowing.encapsulate seed draw = encapsulated id ∧
      (sealingOf id).vault.mlkemDK = seed) ∨
    (knowing.encapsulate seed draw = (fill 32 0, fill 1088 0) ∧
      ∀ id ∈ known, (sealingOf id).vault.mlkemDK ≠ seed) := by
  have hdef : knowing.encapsulate seed draw = (known.find? fun id =>
      (sealingOf id).vault.mlkemDK = seed).elim (fill 32 0, fill 1088 0) encapsulated := rfl
  rw [hdef]
  rcases find_known fun id => (sealingOf id).vault.mlkemDK = seed
    with ⟨h, hnone⟩ | ⟨id, hid, hin, h⟩
  · rw [h]
    exact .inr ⟨rfl, hnone⟩
  · rw [h]
    exact .inl ⟨id, hid, rfl, hin⟩

/-- What opens is one of the uses. -/
theorem gcmOpen_knowing {key nonce c aad p : Bytes}
    (h : knowing.gcmOpen key nonce c aad = some p) :
    ∃ id ∈ known, (key, nonce, aad, p) ∈ gcmUses id ∧ c = p ++ tag := by
  obtain ⟨u, hu, rfl⟩ := Option.map_eq_some_iff.mp h
  obtain ⟨id, hid, hmem⟩ := List.mem_flatMap.mp (List.mem_of_find?_eq_some hu)
  obtain ⟨rfl, rfl, rfl, rfl⟩ : u.1 = key ∧ u.2.1 = nonce ∧ u.2.2.1 = aad ∧ u.2.2.2 ++ tag = c := by
    simpa only [decide_eq_true_eq] using List.find?_some hu
  exact ⟨id, hid, hmem, rfl⟩

theorem fill_inj {n : Nat} {a b : UInt8} (h : fill (n + 1) a = fill (n + 1) b) : a = b :=
  (List.cons.inj h).1

/-- The data key, the encapsulated secret, its ciphertext and the wrapping key of a sealing. -/
def marks : List UInt8 := [3, 6, 7, 8]

/-- No two sealings, and no two of these in one sealing, have a mark in common, and none is zero. -/
theorem marks_known : ∀ a ∈ known, ∀ i ∈ marks, 10 * a + i ≠ 0 ∧
    ∀ b ∈ known, ∀ j ∈ marks, 10 * a + i = 10 * b + j → a = b ∧ i = j := by
  decide +kernel

theorem mark_inj {a b i j : UInt8} (ha : a ∈ known) (hb : b ∈ known) (hi : i ∈ marks)
    (hj : j ∈ marks) (h : 10 * a + i = 10 * b + j) : a = b ∧ i = j :=
  (marks_known a ha i hi).2 b hb j hj h

theorem mark_ne_zero {a i : UInt8} (ha : a ∈ known) (hi : i ∈ marks) : 10 * a + i ≠ 0 :=
  (marks_known a ha i hi).1

theorem ideal_knowing : Ideal knowing knownSealings where
  derived := by
    rintro _ ⟨id, _, rfl⟩
    exact ⟨fill 32 (10 * id), rfl⟩
  hkdf_length secret salt info n _ := by
    show (if _ then _ else _ : Bytes).length = n
    split
    · rcases find_known fun id => wrapInput id = (secret, salt) with ⟨h, _⟩ | ⟨id, _, _, h⟩
      · rw [h]
        exact padded_length n _
      · rw [h]
        exact padded_length n _
    · exact padded_length n _
  ciphertext_length seed draw := by
    rcases encapsulate_knowing seed draw with ⟨id, _, h, _⟩ | ⟨h, _⟩
    · rw [h]
      exact List.length_replicate
    · rw [h]
      exact List.length_replicate
  decapsulate_length seed c := by
    rcases decapsulate_knowing seed c with ⟨id, _, h, _⟩ | ⟨h, _⟩
    · rw [h]
      exact List.length_replicate
    · rw [h]
      exact List.length_replicate
  publicKey_length := coordinate_length
  x25519_length priv pub := by
    show (List.zipWith _ _ _).length = 32
    rw [List.length_zipWith, coordinate_length, coordinate_length]
    rfl
  gcmSeal_length key nonce p aad := List.length_append
  decapsulates seed draw := by
    rcases encapsulate_knowing seed draw with ⟨id, hid, henc, hseed⟩ | ⟨henc, hnone⟩
    · rw [henc]
      rcases decapsulate_knowing seed (encapsulated id).2 with ⟨a, ha, h, _, hct⟩ | ⟨_, hnone⟩
      · rw [h, (mark_inj ha hid (i := 7) (j := 7) (by decide) (by decide) (fill_inj hct)).1]
        rfl
      · exact absurd ⟨hseed, rfl⟩ (hnone id hid)
    · rw [henc]
      rcases decapsulate_knowing seed (fill 1088 0) with ⟨a, ha, _, hseed, _⟩ | ⟨h, _⟩
      · exact absurd hseed (hnone a ha)
      · exact h
  kem_binds := by
    rintro _ ⟨id, hid, rfl⟩ m v c hv hc h
    rw [mlkemShared_known hid] at h
    rcases decapsulate_knowing v.mlkemDK c with ⟨a, ha, hshared, hseed, hct⟩ | ⟨hzero, _⟩
    · rw [hshared] at h
      obtain ⟨rfl, _⟩ := mark_inj ha hid (i := 6) (j := 6) (by decide) (by decide) (fill_inj h)
      rw [mlkemCT_known ha]
      exact ⟨hseed.symm, hct.symm⟩
    · rw [hzero] at h
      exact absurd (fill_inj h).symm (mark_ne_zero hid (i := 6) (by decide))
  kem_fresh := by
    rintro _ ⟨a, ha, rfl⟩ _ ⟨b, hb, rfl⟩ h
    rw [mlkemCT_known ha, mlkemCT_known hb] at h
    rw [(mark_inj ha hb (i := 7) (j := 7) (by decide) (by decide) (fill_inj h)).1]
  agrees a b := by
    show List.zipWith _ _ (coordinate (coordinate b)) = List.zipWith _ _ (coordinate (coordinate a))
    rw [coordinate_coordinate, coordinate_coordinate, List.zipWith_comm_of_comm]
    exact UInt8.add_comm
  nonzero := by
    rintro _ ⟨id, hid, rfl⟩
    rw [x25519Shared_known hid]
    revert id
    decide +kernel
  seed_binds m m' hm hm' h := by
    have hseed (b : Bytes) (hb : b.length = 32) :
        (knowing.hkdf b hkdfSalt "mlkem768-seed" 64).take 32 = b := by
      show (padded 64 b).take 32 = b
      unfold padded
      rw [List.take_take]
      exact List.take_left' hb
    rw [← hseed m hm, h, hseed m' hm']
  kdf_binds := by
    rintro _ ⟨id, hid, rfl⟩ secret salt _ _ h
    rw [kek_known hid] at h
    rw [mlkemShared_known hid, x25519Shared_known hid]
    rcases hkdf_knowing secret salt with ⟨a, ha, hkey, hin⟩ | hzero
    · rw [hkey] at h
      obtain ⟨rfl, _⟩ := mark_inj ha hid (i := 8) (j := 8) (by decide) (by decide) (fill_inj h)
      cases hin
      exact ⟨rfl, rfl⟩
    · rw [hzero] at h
      exact absurd (fill_inj h).symm (mark_ne_zero hid (i := 8) (by decide))
  dek_fresh := by
    rintro _ ⟨id, hid, rfl⟩ secret salt _ _ h
    rcases hkdf_knowing secret salt with ⟨a, ha, hkey, _⟩ | hzero
    · rw [hkey] at h
      have hmark := (mark_inj ha hid (i := 8) (j := 3) (by decide) (by decide) (fill_inj h)).2
      exact absurd hmark (by decide)
    · rw [hzero] at h
      exact mark_ne_zero hid (i := 3) (by decide) (fill_inj h).symm
  unwraps := by
    rintro _ ⟨id, hid, rfl⟩
    unfold Sealing.wrappedDEK
    rw [kek_known hid]
    revert id
    decide +kernel
  decrypts := by
    rintro _ ⟨id, hid, rfl⟩
    revert id
    decide +kernel
  sealed key nonce c aad p h := by
    obtain ⟨id, hid, hmem, rfl⟩ := gcmOpen_knowing h
    refine ⟨sealingOf id, ⟨id, hid, rfl⟩, ?_⟩
    unfold Sealing.wrappedDEK
    rw [kek_known hid]
    rcases List.mem_cons.mp hmem with huse | hmem
    · cases huse
      exact ⟨rfl, .inl ⟨rfl, rfl, rfl, rfl⟩⟩
    · cases List.mem_singleton.mp hmem
      exact ⟨rfl, .inr ⟨rfl, rfl, rfl, rfl⟩⟩
  dek_unique := by
    rintro _ ⟨a, ha, rfl⟩ _ ⟨b, hb, rfl⟩ h
    rw [(mark_inj ha hb (i := 3) (j := 3) (by decide) (by decide) (fill_inj h)).1]

/-- Sealings under two keypairs are bound as the theorem says. -/
theorem knownSealings_bound :
    (∀ s ∈ knownSealings, ∃ envelope,
      s.vault.sealBytes knowing s.draws s.plaintext s.aad = .ofExcept (.ok envelope) ∧
      s.vault.openBytes knowing envelope s.aad = .ofExcept (.ok s.plaintext)) ∧
    ∀ m v envelope aad p, deriveVault knowing m = .ok v →
      v.openBytes knowing envelope aad = .ofExcept (.ok p) →
      (∃ s ∈ knownSealings, s.vault = v ∧ s.aad = aad ∧ s.plaintext = p) ∧
      ((∃ s ∈ knownSealings, s.vault = v ∧ s.aad = aad ∧ s.plaintext = p ∧
          Carries envelope (s.bytes knowing)) ↔
        ∃ s ∈ knownSealings, ∃ raw, Carries envelope raw ∧
          (fields raw).mlkemCT = s.mlkemCT knowing ∧
          (fields raw).xEphPub = s.xEphPub knowing) :=
  envelopes_bound_iff ideal_knowing

/-- The ephemeral key of the first sealing, with its highest bit set. -/
def flippedKey : Bytes := fill 31 11 ++ [139]

/-- The envelope of the first sealing with this key in its header. -/
def flippedEnvelope : Bytes :=
  envelopePrefix ++ Go.Base64.encode ((sealingOf 1).fieldsWith knowing flippedKey).bytes

/-- An envelope whose header is not a sealed one opens. -/
theorem flipped_header_opens :
    (sealingOf 1).vault.openBytes knowing flippedEnvelope (sealingOf 1).aad =
        .ofExcept (.ok (sealingOf 1).plaintext) ∧
      ¬ ∃ s ∈ knownSealings, Carries flippedEnvelope (s.bytes knowing) := by
  have hcarries : Carries flippedEnvelope ((sealingOf 1).fieldsWith knowing flippedKey).bytes :=
    ⟨_, rfl, Go.Base64.decode_encode _⟩
  have hshared : knowing.x25519 (sealingOf 1).vault.x25519Priv flippedKey =
      (sealingOf 1).x25519Shared knowing := by
    decide +kernel
  constructor
  · refine (openBytes_iff ideal_knowing (m := fill 32 10) rfl).mpr ?_
    exact ⟨sealingOf 1, ⟨1, by decide, rfl⟩, rfl, rfl, rfl, flippedKey, rfl, hshared, hcarries⟩
  · rintro ⟨_, ⟨id, hid, rfl⟩, hsealed⟩
    have hfields := congrArg (fun raw => (fields raw).xEphPub) (hcarries.unique hsealed)
    have hsize := ((sealingOf id).agrees ideal_knowing).1
    rw [Sealing.bytes, fields_bytes ((sealingOf 1).fieldsWith_sized ideal_knowing rfl),
      fields_bytes ((sealingOf id).fieldsWith_sized ideal_knowing hsize)] at hfields
    have hkeys : ∀ id ∈ known, (sealingOf id).xEphPub knowing ≠ flippedKey := by decide +kernel
    exact hkeys id hid hfields.symm

end

end Goca.Pqcrypt.Wire
