import Goca.Go.Strings

/-!
# Package encoding/base64

The encodings `base64.RawURLEncoding`, the URL alphabet without padding, and `base64.StdEncoding`,
the standard alphabet with it. Texts are bytes here, as the decoder reads them: it passes over line
breaks, refuses every other byte outside the alphabet, and does not ask the unused bits of the last
digit to be zero.
-/

set_option autoImplicit false

namespace Go.Base64

/-- The bytes of a text in ASCII. -/
def ascii (s : String) : List UInt8 := s.toList.map fun c => .ofNat c.toNat

/-- The alphabet of `base64.URLEncoding`. -/
def alphabet : List UInt8 :=
  ascii "ABCDEFGHIJKLMNOPQRSTUVWXYZabcdefghijklmnopqrstuvwxyz0123456789-_"

/-- `enc.encode[n & 0x3F]`. -/
def digit (n : Nat) : UInt8 := alphabet.getD (n % 64) 0

/-- `enc.decodeMap[b]`, without the entries that stand for no digit. -/
def decodeMap (b : UInt8) : Option Nat :=
  if 65 ≤ b ∧ b ≤ 90 then some (b.toNat - 65)
  else if 97 ≤ b ∧ b ≤ 122 then some (b.toNat - 97 + 26)
  else if 48 ≤ b ∧ b ≤ 57 then some (b.toNat - 48 + 52)
  else if b = 45 then some 62
  else if b = 95 then some 63
  else none

/-- `EncodeToString` of `RawURLEncoding`. -/
def encode : List UInt8 → List UInt8
  | a :: b :: c :: rest =>
    let val := a.toNat * 65536 + b.toNat * 256 + c.toNat
    digit (val / 262144) :: digit (val / 4096) :: digit (val / 64) :: digit val :: encode rest
  | [a, b] =>
    let val := a.toNat * 65536 + b.toNat * 256
    [digit (val / 262144), digit (val / 4096), digit (val / 64)]
  | [a] =>
    let val := a.toNat * 65536
    [digit (val / 262144), digit (val / 4096)]
  | [] => []

/-- `CorruptInputError`. -/
def corruptInput (si : Nat) : Error := .driver ("illegal base64 data at input byte " ++ toString si)

/-- `decodeQuantum` until the text is read: `si` bytes are behind, and `dbuf` holds the digits of
the quantum at hand. -/
def decodeFrom (si : Nat) (dbuf : List Nat) : List UInt8 → Except Error (List UInt8)
  | [] =>
    match dbuf with
    | [] => .ok []
    | [_] => .error (corruptInput (si - 1))
    | [x, y] => .ok [.ofNat ((x * 262144 + y * 4096) / 65536)]
    | x :: y :: z :: _ =>
      let val := x * 262144 + y * 4096 + z * 64
      .ok [.ofNat (val / 65536), .ofNat (val / 256)]
  | b :: src =>
    match decodeMap b with
    | some d =>
      match dbuf with
      | [x, y, z] => do
        let val := x * 262144 + y * 4096 + z * 64 + d
        let rest ← decodeFrom (si + 1) [] src
        return .ofNat (val / 65536) :: .ofNat (val / 256) :: .ofNat val :: rest
      | dbuf => decodeFrom (si + 1) (dbuf ++ [d]) src
    | none =>
      if b = 10 ∨ b = 13 then decodeFrom (si + 1) dbuf src else .error (corruptInput si)

/-- `DecodeString` of `RawURLEncoding`. -/
def decode (s : List UInt8) : Except Error (List UInt8) := decodeFrom 0 [] s

/-- `DecodedLen` of `RawURLEncoding`: the length of the buffer that `DecodeString` decodes into. -/
def decodedLen (n : Nat) : Nat := n / 4 * 3 + n % 4 * 6 / 8

/-! ## The round trip -/

theorem decodeMap_digit (n : Nat) : decodeMap (digit n) = some (n % 64) := by
  have hall : ∀ k < 64, decodeMap (alphabet.getD k 0) = some k := by decide +kernel
  exact hall (n % 64) (Nat.mod_lt n (by decide))

/-- A digit that does not fill its quantum is kept. -/
theorem decodeFrom_digit {dbuf : List Nat} (h : dbuf.length < 3) (si n : Nat) (src : List UInt8) :
    decodeFrom si dbuf (digit n :: src) = decodeFrom (si + 1) (dbuf ++ [n % 64]) src := by
  have hdigit := decodeMap_digit n
  generalize digit n = b at hdigit ⊢
  rw [decodeFrom, hdigit]
  rcases dbuf with _ | ⟨x, _ | ⟨y, _ | ⟨z, rest⟩⟩⟩
  · rfl
  · rfl
  · rfl
  · exact absurd h (by simp)

/-- Four digits are three bytes. -/
theorem decodeFrom_quantum (si n₀ n₁ n₂ n₃ : Nat) (src : List UInt8) :
    decodeFrom si [] (digit n₀ :: digit n₁ :: digit n₂ :: digit n₃ :: src) = (do
      let val := n₀ % 64 * 262144 + n₁ % 64 * 4096 + n₂ % 64 * 64 + n₃ % 64
      let rest ← decodeFrom (si + 4) [] src
      return .ofNat (val / 65536) :: .ofNat (val / 256) :: .ofNat val :: rest) := by
  rw [decodeFrom_digit (by simp), decodeFrom_digit (by simp), decodeFrom_digit (by simp)]
  have hdigit := decodeMap_digit n₃
  generalize digit n₃ = b at hdigit ⊢
  simp only [decodeFrom, hdigit, List.nil_append, List.cons_append, Nat.add_assoc]

theorem ofNat_eq {n : Nat} {b : UInt8} (h : n % 256 = b.toNat) : UInt8.ofNat n = b := by
  apply UInt8.toNat_inj.mp
  rw [UInt8.toNat_ofNat']
  exact h

/-- The digits of 24 bits add up to them. -/
theorem digits_sum {n : Nat} (h : n < 16777216) :
    n / 262144 % 64 * 262144 + n / 4096 % 64 * 4096 + n / 64 % 64 * 64 + n % 64 = n := by
  omega

/-- **What was encoded decodes** to what it was. -/
theorem decodeFrom_encode (bs : List UInt8) (si : Nat) : decodeFrom si [] (encode bs) = .ok bs := by
  induction bs using encode.induct generalizing si with
  | case1 a b c rest ih =>
    have ha := a.toNat_lt
    have hb := b.toNat_lt
    have hc := c.toNat_lt
    have hsum := digits_sum (n := a.toNat * 65536 + b.toNat * 256 + c.toNat) (by omega)
    unfold encode
    rw [decodeFrom_quantum, ih, hsum]
    have h₀ : UInt8.ofNat ((a.toNat * 65536 + b.toNat * 256 + c.toNat) / 65536) = a :=
      ofNat_eq (by omega)
    have h₁ : UInt8.ofNat ((a.toNat * 65536 + b.toNat * 256 + c.toNat) / 256) = b :=
      ofNat_eq (by omega)
    have h₂ : UInt8.ofNat (a.toNat * 65536 + b.toNat * 256 + c.toNat) = c := ofNat_eq (by omega)
    show Except.ok _ = _
    rw [h₀, h₁, h₂]
  | case2 a b =>
    have ha := a.toNat_lt
    have hb := b.toNat_lt
    have hsum := digits_sum (n := a.toNat * 65536 + b.toNat * 256) (by omega)
    have hlast : (a.toNat * 65536 + b.toNat * 256) % 64 = 0 := by omega
    rw [hlast, Nat.add_zero] at hsum
    have h₀ : UInt8.ofNat ((a.toNat * 65536 + b.toNat * 256) / 65536) = a := ofNat_eq (by omega)
    have h₁ : UInt8.ofNat ((a.toNat * 65536 + b.toNat * 256) / 256) = b := ofNat_eq (by omega)
    rw [encode, decodeFrom_digit (by simp), decodeFrom_digit (by simp), decodeFrom_digit (by simp)]
    simp only [decodeFrom, List.nil_append, List.cons_append]
    rw [hsum, h₀, h₁]
  | case3 a =>
    have ha := a.toNat_lt
    have h₀ : UInt8.ofNat ((a.toNat * 65536 / 262144 % 64 * 262144 +
        a.toNat * 65536 / 4096 % 64 * 4096) / 65536) = a := ofNat_eq (by omega)
    rw [encode, decodeFrom_digit (by simp), decodeFrom_digit (by simp)]
    simp only [decodeFrom, List.nil_append, List.cons_append]
    rw [h₀]
  | case4 => rfl

theorem decode_encode (bs : List UInt8) : decode (encode bs) = .ok bs := decodeFrom_encode bs 0

/-! ## The standard encoding -/

/-- The digits of `base64.StdEncoding`. -/
def stdDecodeMap (b : UInt8) : Option Nat :=
  if b = 43 then some 62
  else if b = 47 then some 63
  else if b = 45 ∨ b = 95 then none
  else decodeMap b

/-- A line break, which the decoder passes over. -/
def isNewline (b : UInt8) : Bool := b == 10 || b == 13

/-- What follows the padding of the last quantum: line breaks. -/
def stdEnd (si : Nat) (src : List UInt8) (last : List UInt8) : Except Error (List UInt8) :=
  let rest := src.dropWhile isNewline
  if rest = [] then .ok last else .error (corruptInput (si + (src.length - rest.length)))

/-- The last quantum, from its first padding byte on. -/
def stdPadded (si : Nat) (dbuf : List Nat) (src : List UInt8) : Except Error (List UInt8) :=
  match dbuf with
  | [x, y] =>
    let rest := src.dropWhile isNewline
    let at_ := si + (src.length - rest.length)
    match rest with
    | [] => .error (corruptInput (si + src.length))
    | b :: rest =>
      if b = 61 then stdEnd (at_ + 1) rest [.ofNat ((x * 262144 + y * 4096) / 65536)]
      else .error (corruptInput (at_ - 1))
  | [x, y, z] =>
    let val := x * 262144 + y * 4096 + z * 64
    stdEnd si src [.ofNat (val / 65536), .ofNat (val / 256)]
  | _ => .error (corruptInput (si - 1))

/-- `decodeQuantum` of `base64.StdEncoding` until the text is read. -/
def stdDecodeFrom (si : Nat) (dbuf : List Nat) : List UInt8 → Except Error (List UInt8)
  | [] => if dbuf = [] then .ok [] else .error (corruptInput (si - dbuf.length))
  | b :: src =>
    match stdDecodeMap b with
    | some d =>
      match dbuf with
      | [x, y, z] => do
        let val := x * 262144 + y * 4096 + z * 64 + d
        let rest ← stdDecodeFrom (si + 1) [] src
        return .ofNat (val / 65536) :: .ofNat (val / 256) :: .ofNat val :: rest
      | dbuf => stdDecodeFrom (si + 1) (dbuf ++ [d]) src
    | none =>
      if isNewline b = true then stdDecodeFrom (si + 1) dbuf src
      else if b = 61 then stdPadded (si + 1) dbuf src
      else .error (corruptInput si)

/-- `DecodeString` of `base64.StdEncoding`. -/
def stdDecode (s : String) : Except Error (List UInt8) :=
  stdDecodeFrom 0 [] (s.toList.flatMap String.utf8EncodeChar)

example : (stdDecode "aGk=").toOption = some (ascii "hi") ∧
    (stdDecode "aGk").toOption = none ∧ (stdDecode "aA==\n").toOption = some (ascii "h") := by
  decide +kernel

end Go.Base64
