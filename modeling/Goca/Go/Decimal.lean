import Mathlib.Algebra.Group.Int.Defs
import Mathlib.Algebra.Group.Nat.Defs
import Mathlib.Data.Char
import Goca.Go.Strings
import Goca.Lib.Words

/-!
# Trimmed texts

Which texts `strings.TrimSpace` leaves alone, the decimal numbers of `fmt.Sprint` among them, and
what `strings.CutPrefix` and the replacement of a rune leave of a text.
-/

set_option autoImplicit false

namespace Go

/-- A list none of whose members is dropped. -/
theorem dropWhile_eq_self {p : Char → Bool} {s : List Char} (h : ∀ c ∈ s, p c = false) :
    s.dropWhile p = s := by
  cases s with
  | nil => rfl
  | cons c s => rw [List.dropWhile_cons, h c List.mem_cons_self, if_neg Bool.false_ne_true]

/-- A text without blanks is trimmed. -/
theorem trimSpace_eq_self {s : String} (h : ∀ c ∈ s.toList, isSpace c = false) :
    trimSpace s = s := by
  unfold trimSpace trimRunes
  rw [dropWhile_eq_self h, dropWhile_eq_self fun c hc => h c (List.mem_reverse.mp hc),
    List.reverse_reverse, String.ofList_toList]

/-! ## What trimming leaves -/

section

variable {p : Char → Bool} {s t : List Char}

/-- `trimRunes` drops at the front, then at the back. -/
theorem trimRunes_eq : trimRunes p s = (s.dropWhile p).rdropWhile p := rfl

/-- A trimmed text is a part of the text. -/
theorem trimRunes_sublist (p : Char → Bool) (s : List Char) : (trimRunes p s).Sublist s := by
  rw [trimRunes_eq]
  exact (List.rdropWhile_prefix p _).sublist.trans (List.dropWhile_sublist p)

/-- Trimming keeps only runes of the text. -/
theorem mem_of_mem_trimRunes {c : Char} (h : c ∈ trimRunes p s) : c ∈ s :=
  (trimRunes_sublist p s).subset h

theorem dropWhile_of_head (h : ∀ c ∈ s.head?, p c = false) : s.dropWhile p = s := by
  cases s with
  | nil => rfl
  | cons c s => rw [List.dropWhile_cons, h c rfl, if_neg Bool.false_ne_true]

theorem rdropWhile_of_last (h : ∀ c ∈ s.getLast?, p c = false) : s.rdropWhile p = s := by
  unfold List.rdropWhile
  rw [dropWhile_of_head, List.reverse_reverse]
  rw [List.head?_reverse]
  exact h

/-- A text that begins and ends with other runes is trimmed. -/
theorem trimRunes_eq_self (hhead : ∀ c ∈ s.head?, p c = false)
    (hlast : ∀ c ∈ s.getLast?, p c = false) : trimRunes p s = s := by
  rw [trimRunes_eq, dropWhile_of_head hhead, rdropWhile_of_last hlast]

/-- A trimmed text begins with another rune. -/
theorem head_of_trimmed (h : trimRunes p s = s) : ∀ c ∈ s.head?, p c = false := by
  intro c hc
  obtain ⟨rest, rfl⟩ := List.head?_eq_some_iff.mp hc
  by_contra hp
  have hdrop : trimRunes p (c :: rest) = trimRunes p rest := by
    rw [trimRunes_eq, List.dropWhile_cons, if_pos (Bool.not_eq_false _ ▸ hp)]
    rfl
  have hlen := (trimRunes_sublist p rest).length_le
  rw [← hdrop, h, List.length_cons] at hlen
  omega

/-- A trimmed text ends with another rune. -/
theorem last_of_trimmed (h : trimRunes p s = s) : ∀ c ∈ s.getLast?, p c = false := by
  intro c hc
  have hne : (s.dropWhile p).rdropWhile p ≠ [] := by
    rw [← trimRunes_eq, h]
    rintro rfl
    cases hc
  have hlast := List.rdropWhile_last_not p _ hne
  have hget : ((s.dropWhile p).rdropWhile p).getLast? = some c := by
    rw [← trimRunes_eq, h]
    exact hc
  rw [List.getLast?_eq_some_getLast hne, Option.some.injEq] at hget
  rw [hget] at hlast
  exact Bool.eq_false_iff.mpr hlast

/-- Runes in front of a text are kept when they begin and end with other runes. -/
theorem trimRunes_append {pre : List Char} (hne : pre ≠ []) (hhead : ∀ c ∈ pre.head?, p c = false)
    (hlast : ∀ c ∈ pre.getLast?, p c = false) :
    trimRunes p (pre ++ s) = pre ++ s.rdropWhile p := by
  have hfront : ∀ c ∈ (pre ++ s).head?, p c = false := by
    obtain ⟨c, pre, rfl⟩ := List.exists_cons_of_ne_nil hne
    exact hhead
  rw [trimRunes_eq, dropWhile_of_head hfront]
  unfold List.rdropWhile
  rw [List.reverse_append, List.dropWhile_append]
  split
  · next hempty =>
    have hback : pre.reverse.dropWhile p = pre.reverse :=
      dropWhile_of_head (by rw [List.head?_reverse]; exact hlast)
    rw [hback, List.isEmpty_iff.mp hempty, List.reverse_reverse]
    simp
  · rw [List.reverse_append, List.reverse_reverse]

/-- Trimming at the back first changes nothing. -/
theorem trimRunes_rdropWhile (p : Char → Bool) (s : List Char) :
    trimRunes p (s.rdropWhile p) = trimRunes p s := by
  induction s with
  | nil => rfl
  | cons c s ih =>
    have hcons := Words.rdropWhile_cons p c s
    by_cases hc : p c = true
    · rw [hcons, if_pos hc]
      have hdrop : trimRunes p (c :: s) = trimRunes p s := by
        rw [trimRunes_eq, List.dropWhile_cons, if_pos hc]
        rfl
      rw [hdrop, ← ih]
      split
      · next hs => rw [hs]
      · rw [trimRunes_eq, List.dropWhile_cons, if_pos hc]
        rfl
    · have hfront (t : List Char) : trimRunes p (c :: t) = (c :: t).rdropWhile p := by
        rw [trimRunes_eq, List.dropWhile_cons, if_neg hc]
      rw [hfront, hcons, if_neg hc]
      split
      · rw [hfront, List.rdropWhile_singleton, if_neg hc]
      · next hs =>
        have hkept : (c :: s).rdropWhile p = c :: s.rdropWhile p := by rw [hcons, if_neg hs]
        rw [hfront, ← hkept, List.rdropWhile_idempotent]

/-- Trimming is not affected by what it drops. -/
theorem trimRunes_padded {pre post : List Char} (hpre : ∀ c ∈ pre, p c = true)
    (hpost : ∀ c ∈ post, p c = true) (s : List Char) :
    trimRunes p (pre ++ s ++ post) = trimRunes p s := by
  have hfront : trimRunes p (pre ++ s ++ post) = trimRunes p (s ++ post) := by
    rw [trimRunes_eq, trimRunes_eq, List.append_assoc, List.dropWhile_append_of_pos hpre]
  have hback : (s ++ post).rdropWhile p = s.rdropWhile p := by
    unfold List.rdropWhile
    rw [List.reverse_append, List.dropWhile_append_of_pos (by simpa using hpost)]
  rw [hfront, ← trimRunes_rdropWhile, hback, trimRunes_rdropWhile]

/-- Trimming drops what surrounds a text. -/
theorem trimRunes_surrounded {pre body post : List Char} (houter : ∀ c ∈ pre ++ post, p c = true)
    (hbody : ∀ c ∈ body, p c = false) : trimRunes p (pre ++ body ++ post) = body := by
  rw [trimRunes_padded (fun c hc => houter c (List.mem_append_left _ hc))
    fun c hc => houter c (List.mem_append_right _ hc)]
  exact trimRunes_eq_self (fun c hc => hbody c (List.mem_of_head? hc))
    fun c hc => hbody c (List.mem_of_getLast? hc)

/-- What trimming drops stands around what it leaves. -/
theorem exists_padding (p : Char → Bool) (s : List Char) : ∃ pre post : List Char,
    s = pre ++ trimRunes p s ++ post ∧ (∀ c ∈ pre, p c = true) ∧ ∀ c ∈ post, p c = true := by
  refine ⟨s.takeWhile p, (s.dropWhile p).rtakeWhile p, ?_, ?_, ?_⟩
  · rw [trimRunes_eq, List.append_assoc, List.rdropWhile_append_rtakeWhile,
      List.takeWhile_append_dropWhile]
  · exact fun c hc => List.mem_takeWhile_imp hc
  · exact fun c hc => List.mem_rtakeWhile_imp hc

/-- Trimming twice trims once. -/
theorem trimRunes_trimRunes (p : Char → Bool) (s : List Char) :
    trimRunes p (trimRunes p s) = trimRunes p s := by
  rw [trimRunes_eq (s := s), trimRunes_rdropWhile, trimRunes_eq, List.dropWhile_idempotent]

/-- Trimming a text twice trims it once. -/
theorem trimSpace_trimSpace (s : String) : trimSpace (trimSpace s) = trimSpace s := by
  unfold trimSpace
  rw [String.toList_ofList, trimRunes_trimRunes]

end

/-! ## Prefixes and replaced runes -/

theorem cutPrefix_append (pre d : String) : cutPrefix (pre ++ d) pre = some d := by
  have hdrop : List.dropPrefix? (pre ++ d).toList pre.toList = some d.toList := by
    rw [List.dropPrefix?_eq_some_iff]
    exact ⟨pre.toList, String.toList_append, beq_self_eq_true _⟩
  rw [cutPrefix, hdrop, Option.map_some, String.ofList_toList]

theorem eq_of_cutPrefix {s pre d : String} (h : cutPrefix s pre = some d) : s = pre ++ d := by
  obtain ⟨l, hl, rfl⟩ := Option.map_eq_some_iff.mp h
  obtain ⟨l', hl', hpre⟩ := List.dropPrefix?_eq_some_iff.mp hl
  apply String.toList_injective
  rw [hl', String.toList_append, String.toList_ofList, beq_iff_eq.mp hpre]

/-- A prefix is cut only off a text that has its runes. -/
theorem cutPrefix_of_not_mem {s pre : String} {c : Char} (hc : c ∉ s.toList)
    (hpre : c ∈ pre.toList) : cutPrefix s pre = none := by
  rw [Option.eq_none_iff_forall_not_mem]
  intro d hd
  apply hc
  rw [eq_of_cutPrefix hd, String.toList_append]
  exact List.mem_append_left _ hpre

/-- A rune that does not occur is not replaced. -/
theorem replaceRune_of_not_mem {s : String} {c : Char} {r : List Char} (hc : c ∉ s.toList) :
    replaceRune s c r = s := by
  unfold replaceRune
  rw [List.flatMap_congr (g := fun x => [x])]
  · simp
  · intro x hx
    rw [if_neg]
    rintro rfl
    exact hc hx

/-- Dropping a rune from a text. -/
theorem toList_replaceRune_nil (s : String) (c : Char) :
    (replaceRune s c []).toList = s.toList.filter (· ≠ c) := by
  unfold replaceRune
  rw [String.toList_ofList]
  induction s.toList with
  | nil => rfl
  | cons a l ih =>
    rw [List.flatMap_cons, ih]
    by_cases ha : a = c <;> simp [ha]

/-- Letters and digits are of ASCII. -/
theorem lt_of_isAlphanum {c : Char} (h : c.isAlphanum = true) : c.toNat < 128 := by
  have hbound {l : UInt32} (hle : decide (c.val ≤ l) = true) (hl : l.toNat < 128) :
      c.toNat < 128 := Nat.lt_of_le_of_lt (UInt32.le_iff_toNat_le.mp (of_decide_eq_true hle)) hl
  rcases Bool.or_eq_true_iff.mp h with h | h
  · rcases Bool.or_eq_true_iff.mp h with h | h
    · exact hbound (decide_eq_true (of_decide_eq_true h).2) (by decide)
    · exact hbound (l := 'z'.val) (Bool.and_eq_true_iff.mp h).2 (by decide)
  · exact hbound (l := '9'.val) (Bool.and_eq_true_iff.mp h).2 (by decide)

/-! ## Decimal numbers -/

/-- The runes of a decimal number. -/
theorem toList_toString (n : Nat) : (toString n).toList = Nat.toDigits 10 n := by
  simp

theorem isDigit_of_mem_toString {n : Nat} {c : Char} (h : c ∈ (toString n).toList) :
    c.isDigit = true := by
  rw [toList_toString] at h
  exact Nat.isDigit_of_mem_toDigits (by decide) (by decide) h

/-- The value of a list of digits. -/
def digitsValue (l : List Char) : Nat := l.foldl (fun a c => 10 * a + (c.toNat - '0'.toNat)) 0

theorem digitsValue_toDigits (n : Nat) : digitsValue (Nat.toDigits 10 n) = n := by
  induction n using Nat.strongRecOn with
  | ind n ih =>
    by_cases hn : n < 10
    · rw [Nat.toDigits_of_lt_base hn]
      show 10 * 0 + (n.digitChar.toNat - 48) = n
      rw [Nat.toNat_digitChar_sub_48_of_lt_ten hn, Nat.mul_zero, Nat.zero_add]
    · have hsplit : Nat.toDigits 10 n = Nat.toDigits 10 (n / 10) ++ [(n % 10).digitChar] := by
        rw [← Nat.toDigits_of_lt_base (b := 10) (n := n % 10) (Nat.mod_lt n (by decide)),
          Nat.toDigits_append_toDigits (by decide) (by omega) (Nat.mod_lt n (by decide)),
          Nat.div_add_mod]
      rw [hsplit, digitsValue, List.foldl_append]
      show 10 * digitsValue (Nat.toDigits 10 (n / 10)) + ((n % 10).digitChar.toNat - 48) = n
      rw [ih (n / 10) (by omega), Nat.toNat_digitChar_sub_48_of_lt_ten (Nat.mod_lt n (by decide)),
        Nat.div_add_mod]

/-- Two numbers with one decimal text are one number. -/
theorem toString_inj {m n : Nat} : toString m = toString n ↔ m = n := by
  constructor
  · intro h
    have hlist := congrArg String.toList h
    rw [toList_toString, toList_toString] at hlist
    rw [← digitsValue_toDigits m, hlist, digitsValue_toDigits]
  · rintro rfl
    rfl

/-- A property of the runes of ASCII. -/
theorem ascii_induction {P : Char → Prop} (h : ∀ n < 128, P (Char.ofNat n)) {c : Char}
    (hc : c.toNat < 128) : P c := by
  have := h c.toNat hc
  rwa [Char.ofNat_toNat] at this

/-- A visible rune of ASCII is no blank. -/
theorem isSpace_of_visible {c : Char} (h : 33 ≤ c.toNat ∧ c.toNat ≤ 126) : isSpace c = false := by
  obtain ⟨hlow, hhigh⟩ := h
  have hval : c.val.toNat = c.toNat := rfl
  have hblank : c ≠ ' ' := by
    rintro rfl
    exact absurd hlow (by decide)
  simp only [isSpace, Bool.or_eq_false_iff, Bool.and_eq_false_iff, beq_eq_false_iff_ne, ne_eq,
    decide_eq_false_iff_not, ← UInt32.toNat_inj, UInt32.le_iff_toNat_le, hblank, not_false_eq_true,
    UInt32.toNat_ofNat, Nat.reducePow, Nat.reduceMod, true_and]
  omega

/-- A digit is no blank. -/
theorem isSpace_of_isDigit {c : Char} (h : c.isDigit = true) : isSpace c = false := by
  simp only [Char.isDigit, Bool.and_eq_true, decide_eq_true_eq, ge_iff_le,
    UInt32.le_iff_toNat_le] at h
  refine isSpace_of_visible ⟨?_, ?_⟩
  · exact Nat.le_trans (by decide) h.1
  · exact Nat.le_trans h.2 (by decide)

/-- A decimal number is trimmed, and not empty. -/
theorem trimSpace_toString (n : Nat) : trimSpace (toString n) = toString n :=
  trimSpace_eq_self fun _ hc => isSpace_of_isDigit (isDigit_of_mem_toString hc)

theorem toString_ne_empty (n : Nat) : toString n ≠ "" := by
  intro h
  have hlist := congrArg String.toList h
  rw [toList_toString] at hlist
  exact Nat.toDigits_ne_nil hlist

/-- `strconv.ParseInt(s, 10, 64)`. -/
def parseInt (s : String) : Option Int :=
  let (negative, digits) := match s.toList with
    | '-' :: ds => (true, ds)
    | '+' :: ds => (false, ds)
    | ds => (false, ds)
  if digits.isEmpty || !digits.all Char.isDigit then none
  else
    let n : Int := if negative then -(digitsValue digits) else digitsValue digits
    if -(2 ^ 63) ≤ n ∧ n < 2 ^ 63 then some n else none

/-- Reading a decimal number that fits gives the number. -/
theorem parseInt_toString {n : Nat} (h : n < 2 ^ 63) : parseInt (toString n) = some (n : Int) := by
  have hdigits : ∀ c ∈ Nat.toDigits 10 n, c.isDigit = true := fun c hc =>
    Nat.isDigit_of_mem_toDigits (by decide) (by decide) hc
  have hvalue := digitsValue_toDigits n
  have hne : Nat.toDigits 10 n ≠ [] := Nat.toDigits_ne_nil
  unfold parseInt
  rw [toList_toString]
  generalize Nat.toDigits 10 n = digits at *
  cases digits with
  | nil => exact absurd rfl hne
  | cons c cs =>
    have hc := hdigits c List.mem_cons_self
    have hminus : c ≠ '-' := by
      rintro rfl
      cases hc
    have hplus : c ≠ '+' := by
      rintro rfl
      cases hc
    have hall : (c :: cs).all Char.isDigit = true := List.all_eq_true.mpr hdigits
    split
    next negative digits heq =>
      split at heq
      · next h' => cases h'; exact absurd rfl hminus
      · next h' => cases h'; exact absurd rfl hplus
      · cases heq
        rw [hall, hvalue]
        simp only [List.isEmpty_cons, Bool.not_true, Bool.or_self, Bool.false_eq_true, if_false]
        rw [if_pos (by omega)]
/-- `fmt.Sscanf(s, "%d", &n)` of a text that begins with no blank, for an `int64`: an optional sign
and the digits after it. What follows the digits is not read. -/
def scanInt (s : String) : Option Int :=
  let (negative, rest) := match s.toList with
    | '-' :: cs => (true, cs)
    | '+' :: cs => (false, cs)
    | cs => (false, cs)
  let digits := rest.takeWhile Char.isDigit
  if digits.isEmpty then none
  else
    let n : Int := if negative then -(digitsValue digits) else digitsValue digits
    if -(2 ^ 63) ≤ n ∧ n < 2 ^ 63 then some n else none

example : scanInt "12abc" = some 12 ∧ scanInt "-3" = some (-3) ∧ scanInt "x1" = none := by
  decide +kernel

end Go
