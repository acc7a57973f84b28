import Goca.Pqcrypt.Wire

/-!
# Opening an envelope cut short

`Open` checks that what it decoded has a whole header, and then cuts the header into its fields. The
nonce of the payload comes behind the header, and no one has checked that it is there. An envelope
that ends inside it is cut beyond its end.

- `openRaw_eq`: with the nonce in place, `Open` works on the fields of the layout.
- `openBytes_returns_iff`: it returns, with a plaintext or an error, exactly when the envelope does
  not end inside that nonce.
-/

set_option autoImplicit false

namespace Goca.Pqcrypt.Wire

variable {α β : Type}

/-! ## Computations that return -/

/-- A computation that returns a result or an error. -/
def Run.Returns (x : Run α) : Prop := ∃ r, x = Run.ofExcept r

theorem returns_ofExcept (r : Except Go.Error α) : (Run.ofExcept r).Returns := ⟨r, rfl⟩

theorem returns_pure (a : α) : (pure a : Run α).Returns := ⟨.ok a, rfl⟩

theorem returns_throw (e : Go.Error) : (throw e : Run α).Returns := ⟨.error e, rfl⟩

theorem Run.Returns.bind {x : Run α} {f : α → Run β} (hx : x.Returns) (hf : ∀ a, (f a).Returns) :
    (x >>= f).Returns := by
  obtain ⟨r, rfl⟩ := hx
  cases r with
  | ok a => exact hf a
  | error e => exact ⟨.error e, rfl⟩

theorem Run.Returns.tryCatch {x : Run α} {f : Go.Error → Run α} (hx : x.Returns)
    (hf : ∀ e, (f e).Returns) : (tryCatch x f).Returns := by
  obtain ⟨r, rfl⟩ := hx
  cases r with
  | ok a => exact ⟨.ok a, rfl⟩
  | error e => exact hf e

theorem not_returns_panics : ¬ (Run.panics : Run α).Returns := by
  rintro ⟨r, h⟩
  cases h

/-! ## The packages return -/

variable (P : Primitives)

theorem aeadOpen_returns (key ciphertext aad : Bytes) {nonce : Bytes}
    (h : nonce.length = gcmNonceSize) : (P.aeadOpen key nonce ciphertext aad).Returns := by
  unfold Primitives.aeadOpen
  rw [if_neg (not_not.mpr h)]
  split
  · exact returns_throw _
  · split
    · exact returns_pure _
    · exact returns_throw _

/-! ## The fields of an envelope -/

/-- The fields behind the algorithm, in their order. -/
structure Fields where
  salt : Bytes
  mlkemCT : Bytes
  xEphPub : Bytes
  wrapNonce : Bytes
  wrappedDEK : Bytes
  payloadNonce : Bytes
  payloadCT : Bytes
  deriving DecidableEq

/-- The layout of an envelope. -/
def Fields.bytes (f : Fields) : Bytes :=
  [algHybridX25519MLKEM768] ++ f.salt ++ f.mlkemCT ++ f.xEphPub ++ f.wrapNonce ++ f.wrappedDEK ++
    f.payloadNonce ++ f.payloadCT

/-- The fields of some bytes, by their offsets. -/
def fields (raw : Bytes) : Fields where
  salt := (raw.drop 1).take 32
  mlkemCT := (raw.drop 33).take 1088
  xEphPub := (raw.drop 1121).take 32
  wrapNonce := (raw.drop 1153).take 12
  wrappedDEK := (raw.drop 1165).take 48
  payloadNonce := (raw.drop 1213).take 12
  payloadCT := raw.drop 1225

/-- `Open` once the fields are cut. -/
def Vault.openFields (v : Vault) (f : Fields) (aad : Bytes) : Run Bytes := do
  let mlkemShared ← wrapping "pqcrypt: ML-KEM decapsulate: "
    (P.decapsulateChecked v.mlkemDK f.mlkemCT)
  let xPub ← wrapping "pqcrypt: parse ephemeral X25519 key: " (Primitives.newPublicKey f.xEphPub)
  let x25519Shared ← wrapping "pqcrypt: X25519 exchange: " (P.ecdh v.x25519Priv xPub)
  let kekAEAD ← .ofExcept (Primitives.newGCM (P.wrapKey mlkemShared x25519Shared f.salt))
  let dek ← tryCatch (P.aeadOpen kekAEAD f.wrapNonce f.wrappedDEK aad) fun e =>
    throw (.wrap ("pqcrypt: unwrap data key failed " ++
      "(wrong vault key, tampered data, or mismatched aad): ") e "")
  let dekAEAD ← .ofExcept (Primitives.newGCM dek)
  tryCatch (P.aeadOpen dekAEAD f.payloadNonce f.payloadCT aad) fun e =>
    throw (.wrap "pqcrypt: decrypt failed (tampered data or mismatched aad): " e "")

theorem Slice.sub_eq {s : Slice} {lo hi : Nat} (hlo : lo ≤ hi) (hhi : hi ≤ s.bytes.length) :
    s.sub lo hi = pure ((s.bytes.drop lo).take (hi - lo)) := by
  unfold Slice.sub
  rw [if_pos ⟨hlo, by omega⟩, List.drop_append_of_le_length (by omega),
    List.take_append_of_le_length (by rw [List.length_drop]; omega)]

theorem Slice.rest_eq {s : Slice} {lo : Nat} (h : lo ≤ s.bytes.length) :
    s.rest lo = pure (s.bytes.drop lo) := by
  unfold Slice.rest
  rw [if_pos h]

theorem Slice.rest_panics {s : Slice} {lo : Nat} (h : s.bytes.length < lo) :
    s.rest lo = .panics := by
  unfold Slice.rest
  rw [if_neg (Nat.not_le.mpr h)]

/-- Slicing within the capacity gives some bytes, or none. -/
theorem Slice.sub_or_panics (s : Slice) (lo hi : Nat) :
    (∃ b, s.sub lo hi = pure b) ∨ s.sub lo hi = .panics := by
  unfold Slice.sub
  split
  · exact .inl ⟨_, rfl⟩
  · exact .inr rfl

variable {P}

/-- With the nonce of the payload in place, `Open` works on the fields. -/
theorem openRaw_eq {v : Vault} {raw : Slice} {aad : Bytes}
    (h : headerSize + gcmNonceSize ≤ raw.bytes.length) :
    v.openRaw P raw aad = v.openFields P (fields raw.bytes) aad := by
  have hlen : 1225 ≤ raw.bytes.length := h
  unfold Vault.openRaw
  dsimp only [saltSize, kemCTSize, x25519PubSize, gcmNonceSize, wrappedDEKSize, dekSize, gcmTagSize]
  simp only [Nat.reduceAdd]
  rw [Slice.sub_eq (by decide) (by omega), pure_bind, Slice.sub_eq (by decide) (by omega),
    pure_bind, Slice.sub_eq (by decide) (by omega), pure_bind,
    Slice.sub_eq (by decide) (by omega), pure_bind, Slice.sub_eq (by decide) (by omega),
    pure_bind, Slice.sub_eq (by decide) (by omega), pure_bind, Slice.rest_eq hlen, pure_bind]
  rfl

/-- Without it, slicing fails. -/
theorem openRaw_panics {v : Vault} {raw : Slice} {aad : Bytes}
    (hheader : headerSize ≤ raw.bytes.length)
    (h : raw.bytes.length < headerSize + gcmNonceSize) : v.openRaw P raw aad = .panics := by
  have hheader : 1213 ≤ raw.bytes.length := hheader
  have hlen : raw.bytes.length < 1225 := h
  unfold Vault.openRaw
  dsimp only [saltSize, kemCTSize, x25519PubSize, gcmNonceSize, wrappedDEKSize, dekSize, gcmTagSize]
  simp only [Nat.reduceAdd]
  rw [Slice.sub_eq (by decide) (by omega), pure_bind, Slice.sub_eq (by decide) (by omega),
    pure_bind, Slice.sub_eq (by decide) (by omega), pure_bind,
    Slice.sub_eq (by decide) (by omega), pure_bind, Slice.sub_eq (by decide) (by omega),
    pure_bind]
  -- The nonce may still be cut from the spare bytes, but then the payload is not.
  rcases Slice.sub_or_panics raw 1213 1225 with ⟨b, hb⟩ | hb
  · rw [hb, pure_bind, Slice.rest_panics hlen]
    rfl
  · rw [hb]
    rfl

theorem openFields_returns (v : Vault) (raw aad : Bytes)
    (h : headerSize + gcmNonceSize ≤ raw.length) :
    (v.openFields P (fields raw) aad).Returns := by
  have hlen : 1225 ≤ raw.length := h
  have hwrap : (fields raw).wrapNonce.length = gcmNonceSize := by
    show ((raw.drop 1153).take 12).length = 12
    rw [List.length_take, List.length_drop]
    omega
  have hpayload : (fields raw).payloadNonce.length = gcmNonceSize := by
    show ((raw.drop 1213).take 12).length = 12
    rw [List.length_take, List.length_drop]
    omega
  unfold Vault.openFields wrapping
  refine (returns_ofExcept _).bind fun mlkemShared => (returns_ofExcept _).bind fun xPub => ?_
  refine (returns_ofExcept _).bind fun x25519Shared => (returns_ofExcept _).bind fun kek => ?_
  refine ((aeadOpen_returns P _ _ _ hwrap).tryCatch fun e => returns_throw _).bind fun dek => ?_
  refine (returns_ofExcept _).bind fun dekAEAD => ?_
  exact (aeadOpen_returns P _ _ _ hpayload).tryCatch fun e => returns_throw _

/-! ## When `Open` returns -/

/-- `Open` once the text is decoded. -/
def Vault.openDecoded (P : Primitives) (v : Vault) (aad : Bytes) (raw : Slice) : Run Bytes :=
  if raw.bytes.length < headerSize then throw (.new "pqcrypt: envelope too short")
  else if raw.bytes.headD 0 ≠ algHybridX25519MLKEM768 then
    throw (.new ("pqcrypt: unsupported algorithm " ++ toString (raw.bytes.headD 0).toNat))
  else v.openRaw P raw aad

/-- A text that is no envelope is refused. -/
theorem openBytes_plain (P : Primitives) (v : Vault) {envelope : Bytes} (aad : Bytes)
    (h : ¬ envelopePrefix <+: envelope) : v.openBytes P envelope aad =
      throw (.new "pqcrypt: not a pqenc:v1: envelope") := by
  have hplain : envelopePrefix.isPrefixOf envelope = false :=
    Bool.eq_false_iff.mpr fun hpre => h (List.isPrefixOf_iff_prefix.mp hpre)
  unfold Vault.openBytes
  dsimp only
  rw [if_pos hplain]
  rfl

/-- An envelope is decoded behind its prefix. -/
theorem openBytes_append (P : Primitives) (v : Vault) (text aad : Bytes) :
    v.openBytes P (envelopePrefix ++ text) aad =
      (wrapping "pqcrypt: decode envelope: " (decodeEnvelope text) >>= v.openDecoded P aad) := by
  have hpre : envelopePrefix.isPrefixOf (envelopePrefix ++ text) = true :=
    List.isPrefixOf_iff_prefix.mpr (List.prefix_append _ _)
  unfold Vault.openBytes
  dsimp only
  rw [if_neg (Bool.eq_false_iff.not.mpr (not_not.mpr hpre)), List.drop_left]
  rfl

/-- What is decoded is what the decoder returns, in its buffer. -/
theorem decodeEnvelope_eq_ok {text : Bytes} {raw : Slice} :
    decodeEnvelope text = .ok raw ↔ Go.Base64.decode text = .ok raw.bytes ∧
      raw.spare = List.replicate (Go.Base64.decodedLen text.length - raw.bytes.length) 0 := by
  unfold decodeEnvelope
  cases Go.Base64.decode text with
  | error e => exact iff_of_false nofun fun h => nomatch h.1
  | ok bytes =>
    constructor
    · intro h
      cases h
      exact ⟨rfl, rfl⟩
    · rintro ⟨hbytes, hspare⟩
      obtain rfl := Except.ok.inj hbytes
      show Except.ok (Slice.mk raw.bytes _) = _
      rw [← hspare]

/-- An envelope of the known algorithm that ends inside the nonce of its payload. -/
def CutShort (envelope : Bytes) : Prop :=
  ∃ text raw, envelope = envelopePrefix ++ text ∧ Go.Base64.decode text = .ok raw ∧
    headerSize ≤ raw.length ∧ raw.length < headerSize + gcmNonceSize ∧
    raw.headD 0 = algHybridX25519MLKEM768

theorem panics_of_cutShort (P : Primitives) (v : Vault) {envelope : Bytes} (aad : Bytes)
    (h : CutShort envelope) : v.openBytes P envelope aad = .panics := by
  obtain ⟨text, raw, rfl, hdecode, hheader, hlt, halg⟩ := h
  have hslice : decodeEnvelope text = .ok
      ⟨raw, List.replicate (Go.Base64.decodedLen text.length - raw.length) 0⟩ :=
    decodeEnvelope_eq_ok.mpr ⟨hdecode, rfl⟩
  rw [openBytes_append, hslice]
  show v.openDecoded P aad _ = .panics
  unfold Vault.openDecoded
  rw [if_neg (Nat.not_lt.mpr hheader), if_neg (not_not.mpr halg), openRaw_panics hheader hlt]

theorem returns_of_not_cutShort (P : Primitives) (v : Vault) {envelope : Bytes} (aad : Bytes)
    (h : ¬ CutShort envelope) : (v.openBytes P envelope aad).Returns := by
  by_cases hpre : envelopePrefix <+: envelope
  · obtain ⟨text, rfl⟩ := hpre
    rw [openBytes_append]
    cases hdecode : decodeEnvelope text with
    | error e => exact ⟨.error _, rfl⟩
    | ok raw =>
      obtain ⟨hraw, _⟩ := decodeEnvelope_eq_ok.mp hdecode
      show (v.openDecoded P aad raw).Returns
      unfold Vault.openDecoded
      by_cases hshort : raw.bytes.length < headerSize
      · rw [if_pos hshort]
        exact returns_throw _
      by_cases halg : raw.bytes.headD 0 = algHybridX25519MLKEM768
      · rw [if_neg hshort, if_neg (not_not.mpr halg)]
        by_cases hnonce : raw.bytes.length < headerSize + gcmNonceSize
        · exact absurd ⟨text, raw.bytes, rfl, hraw, Nat.not_lt.mp hshort, hnonce, halg⟩ h
        · rw [openRaw_eq (Nat.not_lt.mp hnonce)]
          exact openFields_returns v _ _ (Nat.not_lt.mp hnonce)
      · rw [if_neg hshort, if_pos halg]
        exact returns_throw _
  · rw [openBytes_plain P v aad hpre]
    exact returns_throw _

/-- **`Open` returns**, with a plaintext or an error, exactly when the envelope does not end inside
the nonce of its payload. -/
theorem openBytes_returns_iff (P : Primitives) (v : Vault) (envelope aad : Bytes) :
    (v.openBytes P envelope aad).Returns ↔ ¬ CutShort envelope := by
  constructor
  · intro hreturns hcut
    rw [panics_of_cutShort P v aad hcut] at hreturns
    exact not_returns_panics hreturns
  · exact returns_of_not_cutShort P v aad

/-! ## A header and nothing more -/

/-- Packages whose every answer is zeros. -/
def zeroPackages : Primitives where
  hkdf _ _ _ n := List.replicate n 0
  encapsulate _ _ := (List.replicate 32 0, List.replicate 1088 0)
  decapsulate _ _ := List.replicate 32 0
  publicKey _ := List.replicate 32 0
  x25519 _ _ := List.replicate 32 0
  gcmSeal _ _ plaintext _ := plaintext ++ List.replicate 16 0
  gcmOpen _ _ _ _ := none

/-- A row whose text ends with the header. -/
def headerOnly : Bytes :=
  envelopePrefix ++ Go.Base64.encode (algHybridX25519MLKEM768 :: List.replicate 1212 0)

theorem headerOnly_cutShort : CutShort headerOnly := by
  refine ⟨_, _, rfl, Go.Base64.decode_encode _, ?_, ?_, rfl⟩
  · rw [List.length_cons, List.length_replicate]
    decide
  · rw [List.length_cons, List.length_replicate]
    decide

/-- Opening it panics. -/
theorem headerOnly_panics :
    (⟨[], []⟩ : Vault).openBytes zeroPackages headerOnly [] = .panics ∧
      ¬ ((⟨[], []⟩ : Vault).openBytes zeroPackages headerOnly []).Returns := by
  have hpanics := panics_of_cutShort zeroPackages ⟨[], []⟩ [] headerOnly_cutShort
  refine ⟨hpanics, fun h => ?_⟩
  rw [hpanics] at h
  exact not_returns_panics h

end Goca.Pqcrypt.Wire
