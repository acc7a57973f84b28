import Mathlib.Data.Finmap
import Mathlib.Data.Finset.Sort
import Mathlib.Data.String.Basic
import Goca.Go.Strings

/-!
# Package encoding/json: maps of strings

`json.Marshal` and `json.Unmarshal` at `map[string]string`. A text is written with its keys in
order and with every rune escaped that HTML gives a meaning; a text that is read may hold white
space, any escape, one key twice (the last one counts) and `null` for a value. Whatever else a text
holds, reading it is an error, so no other value of JSON is told apart.

What is written reads as the map it was written of (`unmarshal_marshal`).
-/

set_option autoImplicit false

namespace Go.Json

/-- A `map[string]string`. -/
abbrev StringMap := Finmap fun _ : String => String

/-! ## Writing -/

/-- Four hexadecimal digits. -/
def hexQuad (n : Nat) : List Char :=
  [n / 4096 % 16, n / 256 % 16, n / 16 % 16, n % 16].map Nat.digitChar

/-- A rune that a string does not hold as it is: controls, what HTML reads, and the two line
separators of JavaScript. -/
def isEscaped (c : Char) : Bool :=
  c.toNat < 32 || c == '<' || c == '>' || c == '&' || c.toNat == 8232 || c.toNat == 8233

/-- A rune as it stands in a string. -/
def escapeRune (c : Char) : List Char :=
  if c = '"' ∨ c = '\\' then ['\\', c]
  else if c.toNat = 8 then ['\\', 'b']
  else if c.toNat = 12 then ['\\', 'f']
  else if c = '\n' then ['\\', 'n']
  else if c = '\r' then ['\\', 'r']
  else if c = '\t' then ['\\', 't']
  else if isEscaped c = true then '\\' :: 'u' :: hexQuad c.toNat
  else [c]

/-- A string behind its opening quote. -/
def stringTail (s : List Char) : List Char := s.flatMap escapeRune ++ ['"']

/-- A member of an object behind its opening quote. -/
def memberTail (k v : String) : List Char :=
  stringTail k.toList ++ ':' :: '"' :: stringTail v.toList

/-- The members of an object, up to its closing brace. -/
def writeMembers (value : String → String) : List String → List Char
  | [] => ['\x7d']
  | [k] => '"' :: memberTail k (value k) ++ ['\x7d']
  | k :: rest => '"' :: memberTail k (value k) ++ ',' :: writeMembers value rest

/-- The keys of a map in their order. -/
def sortedKeys (m : StringMap) : List String := m.keys.sort (· ≤ ·)

/-- The value under a key, or the zero value. -/
def value (m : StringMap) (k : String) : String := (m.lookup k).getD ""

/-- `json.Marshal`. -/
def marshal (m : StringMap) : String :=
  .ofList ('\x7b' :: writeMembers (value m) (sortedKeys m))

/-! ## Reading -/

/-- White space between tokens. -/
def isSpace (c : Char) : Bool := c == ' ' || c == '\t' || c == '\r' || c == '\n'

def skipSpace (s : List Char) : List Char := s.dropWhile isSpace

/-- One unit of a string: a rune that stands there, or the number of a `\u` escape. -/
inductive Piece
  | rune (c : Char)
  | code (n : Nat)
  deriving Repr, DecidableEq

/-- The rune of an escape of one letter. -/
def unescape (c : Char) : Option Char :=
  if c = '"' ∨ c = '\\' ∨ c = '/' then some c
  else if c = 'b' then some (.ofNat 8)
  else if c = 'f' then some (.ofNat 12)
  else if c = 'n' then some '\n'
  else if c = 'r' then some '\r'
  else if c = 't' then some '\t'
  else none

/-- The number of four hexadecimal digits. -/
def quadValue (a b c d : Char) : Option Nat := do
  let a ← hexValue a
  let b ← hexValue b
  let c ← hexValue c
  let d ← hexValue d
  pure (4096 * a + 256 * b + 16 * c + d)

/-- The pieces of a string up to its closing quote, and what follows it. -/
def readPieces : List Char → Option (List Piece × List Char)
  | '"' :: rest => some ([], rest)
  | '\\' :: 'u' :: a :: b :: c :: d :: rest => do
    let n ← quadValue a b c d
    let (pieces, rest) ← readPieces rest
    pure (.code n :: pieces, rest)
  | '\\' :: e :: rest => do
    let r ← unescape e
    let (pieces, rest) ← readPieces rest
    pure (.rune r :: pieces, rest)
  | c :: rest =>
    if c.toNat < 32 ∨ c = '\\' then none
    else do
      let (pieces, rest) ← readPieces rest
      pure (.rune c :: pieces, rest)
  | [] => none

/-- The rune of a number; half of a surrogate pair is none. -/
def ofCode (n : Nat) : Char := if 0xd800 ≤ n ∧ n < 0xe000 then .ofNat 0xfffd else .ofNat n

/-- The runes of a string: two halves of a surrogate pair are one rune. -/
def joinPieces : List Piece → List Char
  | [] => []
  | .rune c :: rest => c :: joinPieces rest
  | .code n :: .code m :: rest =>
    if (0xd800 ≤ n ∧ n < 0xdc00) ∧ 0xdc00 ≤ m ∧ m < 0xe000 then
      .ofNat (0x10000 + 1024 * (n - 0xd800) + (m - 0xdc00)) :: joinPieces rest
    else ofCode n :: joinPieces (.code m :: rest)
  | .code n :: rest => ofCode n :: joinPieces rest

/-- A string behind its opening quote, and what follows it. -/
def readString (s : List Char) : Option (String × List Char) := do
  let (pieces, rest) ← readPieces s
  pure (.ofList (joinPieces pieces), rest)

/-- A value of a map of strings: `null` leaves the zero value. -/
def readValue : List Char → Option (String × List Char)
  | '"' :: rest => readString rest
  | 'n' :: 'u' :: 'l' :: 'l' :: rest => some ("", rest)
  | _ => none

/-- The colon and the value of a member. -/
def readColon : List Char → Option (String × List Char)
  | ':' :: rest => readValue (skipSpace rest)
  | _ => none

/-- The members of an object that has one. Each is longer than nothing, so the length of a text is
enough fuel. -/
def readMembers : Nat → StringMap → List Char → Option (StringMap × List Char)
  | fuel + 1, m, '"' :: rest => do
    let (k, rest) ← readString rest
    let (v, rest) ← readColon (skipSpace rest)
    match skipSpace rest with
    | ',' :: rest => readMembers fuel (m.insert k v) (skipSpace rest)
    | '\x7d' :: rest => some (m.insert k v, rest)
    | _ => none
  | _, _, _ => none

/-- An object, or `null`, and what follows it. -/
def readMap : List Char → Option (StringMap × List Char)
  | '\x7b' :: rest =>
    match skipSpace rest with
    | '\x7d' :: rest => some (∅, rest)
    | rest => readMembers rest.length ∅ rest
  | 'n' :: 'u' :: 'l' :: 'l' :: rest => some (∅, rest)
  | _ => none

/-- `json.Unmarshal` into a map of strings. -/
def unmarshal (text : String) : Option StringMap := do
  let (m, rest) ← readMap (skipSpace text.toList)
  if skipSpace rest = [] then pure m else none

/-! ## The round trip -/

attribute [local simp] readPieces joinPieces readMembers writeMembers

/-- Reading a piece and going on. -/
def withPiece (p : Piece) (r : List Piece × List Char) : List Piece × List Char := (p :: r.1, r.2)

/-- Four digits have the number that they were written of. -/
theorem quadValue_hexQuad {n : Nat} (h : n < 65536) : ∃ a b c d,
    hexQuad n = [a, b, c, d] ∧ quadValue a b c d = some n := by
  refine ⟨_, _, _, _, rfl, ?_⟩
  unfold quadValue
  rw [hexValue_digitChar _ (by omega), hexValue_digitChar _ (by omega),
    hexValue_digitChar _ (by omega), hexValue_digitChar _ (by omega)]
  show some (4096 * (n / 4096 % 16) + 256 * (n / 256 % 16) + 16 * (n / 16 % 16) + n % 16) = some n
  congr 1
  omega

/-- An escape of one letter is read. -/
theorem readPieces_letter {e r : Char} (he : e ≠ 'u') (hr : unescape e = some r)
    (rest : List Char) :
    readPieces ('\\' :: e :: rest) = (readPieces rest).map (withPiece (.rune r)) := by
  rw [readPieces]
  · rw [hr]
    cases readPieces rest <;> rfl
  · rintro _ _ _ _ _ rfl
    exact absurd rfl he

/-- A number is read. -/
theorem readPieces_code {a b c d : Char} {n : Nat} (h : quadValue a b c d = some n)
    (rest : List Char) : readPieces ('\\' :: 'u' :: a :: b :: c :: d :: rest) =
      (readPieces rest).map (withPiece (.code n)) := by
  rw [readPieces, h]
  cases readPieces rest <;> rfl

/-- A rune that stands for itself is read. -/
theorem readPieces_rune {c : Char} (hquote : c ≠ '"') (hslash : c ≠ '\\') (h : 32 ≤ c.toNat)
    (rest : List Char) : readPieces (c :: rest) = (readPieces rest).map (withPiece (.rune c)) := by
  rw [readPieces]
  · rw [if_neg (by simp only [hslash, or_false]; omega)]
    cases readPieces rest <;> rfl
  · exact fun h => absurd h hquote
  · exact fun _ _ _ _ _ h _ => absurd h hslash
  · exact fun _ _ h => absurd h hslash

/-- A number that is no half of a surrogate pair is one rune, whatever follows. -/
theorem joinPieces_code {c : Char} (h : c.toNat < 0xd800) (ps : List Piece) :
    joinPieces (.code c.toNat :: ps) = c :: joinPieces ps := by
  have hcode : ofCode c.toNat = c := by
    unfold ofCode
    rw [if_neg (by omega), Char.ofNat_toNat]
  cases ps with
  | nil => simp only [joinPieces, hcode]
  | cons p ps =>
    cases p with
    | rune r => simp only [joinPieces, hcode]
    | code m => rw [joinPieces, if_neg (by omega), hcode]

/-- **An escaped rune reads as the rune.** -/
theorem readPieces_escapeRune (c : Char) (rest : List Char) : ∃ p,
    readPieces (escapeRune c ++ rest) = (readPieces rest).map (withPiece p) ∧
      ∀ ps, joinPieces (p :: ps) = c :: joinPieces ps := by
  have hofNat {n : Nat} (h : c.toNat = n) : c = .ofNat n := by rw [← h, Char.ofNat_toNat]
  have hletter {e : Char} (he : e ≠ 'u') (hc : unescape e = some c) : ∃ p,
      readPieces (['\\', e] ++ rest) = (readPieces rest).map (withPiece p) ∧
        ∀ ps, joinPieces (p :: ps) = c :: joinPieces ps :=
    ⟨.rune c, readPieces_letter he hc rest, fun ps => rfl⟩
  unfold escapeRune
  by_cases hquote : c = '"' ∨ c = '\\'
  · rw [if_pos hquote]
    rcases hquote with rfl | rfl
    · exact hletter (by decide) rfl
    · exact hletter (by decide) rfl
  rw [if_neg hquote]
  by_cases hb : c.toNat = 8
  · rw [if_pos hb]
    exact hletter (by decide) (congrArg some (hofNat hb).symm)
  rw [if_neg hb]
  by_cases hf : c.toNat = 12
  · rw [if_pos hf]
    exact hletter (by decide) (congrArg some (hofNat hf).symm)
  rw [if_neg hf]
  by_cases hn : c = '\n'
  · rw [if_pos hn]
    exact hletter (by decide) (congrArg some hn.symm)
  rw [if_neg hn]
  by_cases hr : c = '\r'
  · rw [if_pos hr]
    exact hletter (by decide) (congrArg some hr.symm)
  rw [if_neg hr]
  by_cases ht : c = '\t'
  · rw [if_pos ht]
    exact hletter (by decide) (congrArg some ht.symm)
  rw [if_neg ht]
  by_cases hescaped : isEscaped c = true
  · rw [if_pos hescaped]
    have hsmall : c.toNat < 0xd800 := by
      unfold isEscaped at hescaped
      simp only [Bool.or_eq_true, decide_eq_true_eq, beq_iff_eq] at hescaped
      rcases hescaped with ((((h | rfl) | rfl) | rfl) | h) | h
      · omega
      · decide
      · decide
      · decide
      · omega
      · omega
    obtain ⟨a, b, d, e, hquad, hvalue⟩ := quadValue_hexQuad (n := c.toNat) (by omega)
    rw [hquad]
    exact ⟨.code c.toNat, readPieces_code hvalue rest, joinPieces_code hsmall⟩
  · rw [if_neg hescaped]
    have hlow : 32 ≤ c.toNat := by
      unfold isEscaped at hescaped
      simp only [Bool.or_eq_true, decide_eq_true_eq, not_or] at hescaped
      omega
    rw [not_or] at hquote
    exact ⟨.rune c, readPieces_rune hquote.1 hquote.2 hlow rest, fun ps => rfl⟩

/-- What is written of a string reads as the string. -/
theorem readPieces_stringTail (s rest : List Char) : ∃ pieces,
    readPieces (stringTail s ++ rest) = some (pieces, rest) ∧ joinPieces pieces = s := by
  induction s with
  | nil => exact ⟨[], by simp [stringTail, readPieces], rfl⟩
  | cons c s ih =>
    obtain ⟨pieces, hread, hjoin⟩ := ih
    obtain ⟨p, hp, hc⟩ := readPieces_escapeRune c (stringTail s ++ rest)
    refine ⟨p :: pieces, ?_, ?_⟩
    · have htail : stringTail (c :: s) ++ rest = escapeRune c ++ (stringTail s ++ rest) := by
        simp only [stringTail, List.flatMap_cons, List.append_assoc]
      rw [htail, hp, hread]
      rfl
    · rw [hc, hjoin]

theorem readString_stringTail (s : String) (rest : List Char) :
    readString (stringTail s.toList ++ rest) = some (s, rest) := by
  obtain ⟨pieces, hread, hjoin⟩ := readPieces_stringTail s.toList rest
  unfold readString
  rw [hread]
  show some (String.ofList (joinPieces pieces), rest) = _
  rw [hjoin, String.ofList_toList]

/-- A member reads as its key and its value. -/
theorem readMembers_member (fuel : Nat) (m : StringMap) (k v : String) (rest : List Char) :
    readMembers (fuel + 1) m ('"' :: memberTail k v ++ ',' :: '"' :: rest) =
      readMembers fuel (m.insert k v) ('"' :: rest) := by
  have hkey : memberTail k v ++ ',' :: '"' :: rest =
      stringTail k.toList ++ (':' :: '"' :: (stringTail v.toList ++ ',' :: '"' :: rest)) := by
    simp only [memberTail, List.append_assoc, List.cons_append]
  rw [List.cons_append, readMembers, hkey, readString_stringTail]
  show (readString (stringTail v.toList ++ ',' :: '"' :: rest) >>= _) = _
  rw [readString_stringTail]
  rfl

/-- The last member reads as its key and its value. -/
theorem readMembers_last (fuel : Nat) (m : StringMap) (k v : String) :
    readMembers (fuel + 1) m ('"' :: memberTail k v ++ ['\x7d']) = some (m.insert k v, []) := by
  have hkey : memberTail k v ++ ['\x7d'] =
      stringTail k.toList ++ (':' :: '"' :: (stringTail v.toList ++ ['\x7d'])) := by
    simp only [memberTail, List.append_assoc, List.cons_append]
  rw [List.cons_append, readMembers, hkey, readString_stringTail]
  show (readString (stringTail v.toList ++ ['\x7d']) >>= _) = _
  rw [readString_stringTail]
  rfl

/-- **What is written of members is read into the map that they are added to.** -/
theorem readMembers_writeMembers (f : String → String) (k : String) (ks : List String) :
    ∀ (fuel : Nat) (m : StringMap), ks.length < fuel →
      readMembers fuel m (writeMembers f (k :: ks)) =
        some ((k :: ks).foldl (fun m k => m.insert k (f k)) m, []) := by
  induction ks generalizing k with
  | nil =>
    intro fuel m hfuel
    cases fuel with
    | zero => exact absurd hfuel (Nat.not_lt_zero _)
    | succ fuel => exact readMembers_last fuel m k (f k)
  | cons k' ks ih =>
    intro fuel m hfuel
    cases fuel with
    | zero => exact absurd hfuel (Nat.not_lt_zero _)
    | succ fuel =>
      obtain ⟨tail, htail⟩ : ∃ tail, writeMembers f (k' :: ks) = '"' :: tail := by
        cases ks with
        | nil => exact ⟨_, rfl⟩
        | cons k'' ks => exact ⟨_, rfl⟩
      have hstep : writeMembers f (k :: k' :: ks) =
          '"' :: memberTail k (f k) ++ ',' :: '"' :: tail := by
        rw [writeMembers, htail]
        exact fun h => by cases h
      rw [hstep, readMembers_member, ← htail, ih k' fuel _ (Nat.lt_of_succ_lt_succ hfuel)]
      rfl

/-- A text has at least as many runes as members. -/
theorem length_writeMembers (f : String → String) (ks : List String) :
    ks.length < (writeMembers f ks).length := by
  induction ks with
  | nil => exact Nat.zero_lt_one
  | cons k ks ih =>
    cases ks with
    | nil => simp only [writeMembers, List.length_append, List.length_cons, List.length_nil]; omega
    | cons k' ks =>
      rw [writeMembers]
      · simp only [List.length_append, List.length_cons] at ih ⊢
        omega
      · exact fun h => by cases h

/-- What is added under some keys is found under them. -/
theorem lookup_foldl_insert (f : String → String) (k : String) (ks : List String) (m : StringMap) :
    (ks.foldl (fun m k => m.insert k (f k)) m).lookup k =
      if k ∈ ks then some (f k) else m.lookup k := by
  induction ks generalizing m with
  | nil => rfl
  | cons k' ks ih =>
    rw [List.foldl_cons, ih]
    by_cases hk : k ∈ ks
    · rw [if_pos hk, if_pos (List.mem_cons_of_mem k' hk)]
    · rw [if_neg hk]
      by_cases heq : k = k'
      · subst heq
        rw [Finmap.lookup_insert, if_pos List.mem_cons_self]
      · rw [Finmap.lookup_insert_of_ne m heq, if_neg]
        rw [List.mem_cons, not_or]
        exact ⟨heq, hk⟩

/-- The keys of a map with their values are the map. -/
theorem foldl_sortedKeys (m : StringMap) :
    (sortedKeys m).foldl (fun m' k => m'.insert k (value m k)) ∅ = m := by
  refine Finmap.ext_lookup fun k => ?_
  rw [lookup_foldl_insert]
  unfold sortedKeys value
  by_cases hk : k ∈ m
  · obtain ⟨v, hv⟩ := Finmap.mem_iff.mp hk
    rw [if_pos ((Finset.mem_sort _).mpr hk), hv]
    rfl
  · rw [if_neg (fun h => hk ((Finset.mem_sort _).mp h)), Finmap.lookup_empty,
      Finmap.lookup_eq_none.mpr hk]

/-- **What is written of a map reads as the map.** -/
theorem unmarshal_marshal (m : StringMap) : unmarshal (marshal m) = some m := by
  have hmap : readMap ('\x7b' :: writeMembers (value m) (sortedKeys m)) = some (m, []) := by
    cases hkeys : sortedKeys m with
    | nil =>
      have hm := foldl_sortedKeys m
      rw [hkeys] at hm
      exact congrArg (fun m => some (m, [])) hm
    | cons k ks =>
      have hread := readMembers_writeMembers (value m) k ks _ ∅
        (Nat.lt_of_succ_lt (length_writeMembers (value m) (k :: ks)))
      rw [← hkeys, foldl_sortedKeys, hkeys] at hread
      rw [← hread]
      cases ks with
      | nil => rfl
      | cons k' ks => rfl
  unfold unmarshal marshal
  rw [String.toList_ofList]
  show (readMap ('\x7b' :: writeMembers (value m) (sortedKeys m)) >>= _) = _
  rw [hmap]
  rfl

end Go.Json
