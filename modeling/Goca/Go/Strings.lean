import Mathlib.Data.List.Basic

/-!
# The Go runtime, as far as the program leans on it

Strings are sequences of runes here; the places where Go counts bytes use `String.utf8ByteSize`.
The case mappings are the ASCII ones, computed, and for runes outside ASCII whatever Unicode says:
`Runtime` carries those mappings and the few parsers of the standard library whose results the
program passes on without looking inside. Every law of the development holds for every `Runtime`.
-/

set_option autoImplicit false

namespace Go

/-- Seconds since Go's zero time, the first of January of year 1. -/
abbrev Time := Int

/-- Go's zero time, which `IsZero` recognizes. -/
def Time.zero : Time := 0

/-- `t.AddDate(0, 0, days)` in UTC, where every day has 86400 seconds. The seconds are counted in a
signed 64-bit integer, which a large number of days wraps around. -/
def Time.addDays (t : Time) (days : Int) : Time := (t + days * 86400).bmod 18446744073709551616

/-- `t.After(u)`. -/
def Time.after (t u : Time) : Bool := u < t

/-- The seconds of `t.Sub(u)`, a `Duration` that saturates at 64 bits of nanoseconds. -/
def Time.sub (t u : Time) : Int := min (max (t - u) (-9223372036)) 9223372036

/-- `int(t.Sub(u).Hours() / 24)`: whole days, toward zero. -/
def Time.wholeDays (t u : Time) : Int := (t.sub u).tdiv 86400

/-- A number with leading zeros up to a width. -/
def padded (width : Nat) (n : Nat) : String :=
  let ds := Nat.toDigits 10 n
  .ofList (List.replicate (width - ds.length) '0' ++ ds)

/-- `t.Format("2006-01-02")`: the civil date, counted in 400-year eras from the first of March of
year 0, which is 306 days before Go's zero time. -/
def Time.date (t : Time) : String :=
  let z := (t / 86400 + 306).toNat
  let doe := z % 146097
  let yoe := (doe - doe / 1460 + doe / 36524 - doe / 146096) / 365
  let doy := doe - (365 * yoe + yoe / 4 - yoe / 100)
  let mp := (5 * doy + 2) / 153
  let day := doy - (153 * mp + 2) / 5 + 1
  let month := if mp < 10 then mp + 3 else mp - 9
  let year := yoe + z / 146097 * 400 + (if month ≤ 2 then 1 else 0)
  padded 4 year ++ "-" ++ padded 2 month ++ "-" ++ padded 2 day

/-- `t.UTC().Format(time.RFC3339)`. -/
def Time.rfc3339 (t : Time) : String :=
  let s := (t % 86400).toNat
  t.date ++ "T" ++ padded 2 (s / 3600) ++ ":" ++ padded 2 (s / 60 % 60) ++ ":" ++
    padded 2 (s % 60) ++ "Z"

example : Time.date 0 = "0001-01-01" ∧ Time.date 63844761600 = "2024-02-29" := by decide +kernel

/-- A URL as `url.Parse` returns it: the parts the program reads, and the text it renders to. -/
structure URL where
  scheme : String
  opaquePart : String
  rawQuery : String
  text : String
  deriving Repr, DecidableEq

/-- What the standard library decides and the program takes over. -/
class Runtime where
  /-- `unicode.ToLower` outside ASCII. -/
  lowerRune : Char → Char
  /-- `unicode.ToUpper` outside ASCII. -/
  upperRune : Char → Char
  /-- `url.Parse`: the URL, or the text of the error. -/
  urlParse : String → Except String URL
  /-- Whether `mail.ParseAddress` accepts the text. -/
  mailAddress : String → Bool
  /-- `time.Parse(time.RFC3339, _)`, whole seconds. -/
  parseRFC3339 : String → Option Time

/-- A runtime that knows no rune outside ASCII, and parses no URL, address or time. -/
@[reducible] def asciiRuntime : Runtime where
  lowerRune c := c
  upperRune c := c
  urlParse s := .error ("parse " ++ s)
  mailAddress _ := false
  parseRFC3339 _ := none

/-! ## Package unicode and strings -/

/-- `unicode.IsSpace`. -/
def isSpace (c : Char) : Bool :=
  c == ' ' || (9 ≤ c.val && c.val ≤ 13) || c.val == 0x85 || c.val == 0xA0 || c.val == 0x1680 ||
    (0x2000 ≤ c.val && c.val ≤ 0x200A) || c.val == 0x2028 || c.val == 0x2029 ||
    c.val == 0x202F || c.val == 0x205F || c.val == 0x3000

/-- Whether a rune is ASCII. -/
def isASCII (c : Char) : Bool := c.val < 128

theorem isASCII_iff {c : Char} : isASCII c = true ↔ c.toNat < 128 := by
  unfold isASCII
  rw [decide_eq_true_iff]
  exact UInt32.lt_iff_toNat_lt

/-- Drop the runes `p` accepts from both ends. -/
def trimRunes (p : Char → Bool) (s : List Char) : List Char :=
  ((s.dropWhile p).reverse.dropWhile p).reverse

/-- `strings.TrimSpace`. -/
def trimSpace (s : String) : String := .ofList (trimRunes isSpace s.toList)

/-- `strings.Trim(s, cutset)`. -/
def trim (s cutset : String) : String := .ofList (trimRunes (cutset.toList.contains ·) s.toList)

/-- `strings.TrimRight(s, cutset)`. -/
def trimRight (s cutset : String) : String :=
  .ofList (s.toList.reverse.dropWhile (cutset.toList.contains ·)).reverse

/-- `strings.CutPrefix`: what follows the prefix, if the text starts with it. -/
def cutPrefix (s pre : String) : Option String :=
  (List.dropPrefix? s.toList pre.toList).map .ofList

/-- `strings.HasPrefix`. -/
def hasPrefix (s pre : String) : Bool := pre.toList.isPrefixOf s.toList

/-- `strings.HasSuffix`. -/
def hasSuffix (s suf : String) : Bool := suf.toList.isSuffixOf s.toList

/-- `strings.TrimSuffix`. -/
def trimSuffix (s suf : String) : String :=
  if hasSuffix s suf then .ofList (s.toList.take (s.toList.length - suf.toList.length)) else s

/-- `strings.Contains`. -/
def contains (s sub : String) : Bool := s.toList.tails.any (sub.toList.isPrefixOf ·)

/-- Replace every rune `c` of the text by the runes `r`. -/
def replaceRune (s : String) (c : Char) (r : List Char) : String :=
  .ofList (s.toList.flatMap fun x => if x = c then r else [x])

/-- Replace every occurrence of `old`, from left to right; `n` runes of the last one are still to be
passed over. -/
def replaceFrom (old new : List Char) : Nat → List Char → List Char
  | _, [] => []
  | n + 1, _ :: s => replaceFrom old new n s
  | 0, c :: s =>
    if old.isPrefixOf (c :: s) then new ++ replaceFrom old new (old.length - 1) s
    else c :: replaceFrom old new 0 s

/-- `strings.ReplaceAll(s, old, new)` for an `old` that is not empty. -/
def replaceAll (s old new : String) : String :=
  .ofList (replaceFrom old.toList new.toList 0 s.toList)

example : replaceAll "uid=%s,cn=%s" "%s" "ada" = "uid=ada,cn=ada" := by decide

/-- `strings.FieldsFunc`: the maximal runs of runes that `sep` rejects. -/
def fieldsFunc (sep : Char → Bool) (s : String) : List String :=
  (s.toList.splitOnP sep).filterMap fun f => if f.isEmpty then none else some (.ofList f)

/-- `strings.Split(s, sep)` for a one-rune separator. -/
def split (s : String) (sep : Char) : List String := (s.toList.splitOn sep).map .ofList

/-- `strings.Join`. -/
def join (parts : List String) (sep : String) : String := sep.intercalate parts

/-- `strings.Count` of a one-rune substring. -/
def count (s : String) (c : Char) : Nat := s.toList.count c

section Case

variable [Runtime]

/-- `unicode.ToLower`. -/
def lowerRune (c : Char) : Char := if isASCII c then c.toLower else Runtime.lowerRune c

/-- `unicode.ToUpper`. -/
def upperRune (c : Char) : Char := if isASCII c then c.toUpper else Runtime.upperRune c

/-- `strings.ToLower`. -/
def toLower (s : String) : String := .ofList (s.toList.map lowerRune)

/-- `strings.ToUpper`. -/
def toUpper (s : String) : String := .ofList (s.toList.map upperRune)

end Case

/-- `strings.EqualFold(s, t)` for a `t` of ASCII letters that no other rune folds to. -/
def equalFoldASCII (s t : String) : Bool :=
  s.toList.map Char.toLower == t.toList.map Char.toLower

/-- What `unicode.SimpleFold` decides outside ASCII. -/
class Folding where
  /-- Whether two runes, not both of ASCII, are on one orbit of `unicode.SimpleFold`. -/
  sameFold : Char → Char → Bool

/-- Whether `strings.EqualFold` takes two runes for the same. -/
def equalFoldRune [Folding] (a b : Char) : Bool :=
  a == b || (if isASCII a && isASCII b then a.toLower == b.toLower else Folding.sameFold a b)

/-- `strings.EqualFold`. -/
def equalFold [Folding] (s t : String) : Bool :=
  s.toList.length == t.toList.length &&
    (s.toList.zip t.toList).all fun p => equalFoldRune p.1 p.2

/-- `strconv.Quote` as the `%q` verb prints it, for the plain texts the program quotes. -/
def quote (s : String) : String := "\"" ++ s ++ "\""

/-- A list of texts as the `%v` verb prints it. -/
def listText (parts : List String) : String := "[" ++ " ".intercalate parts ++ "]"

/-- Lower-case hexadecimal digits of a number, most significant first. -/
def hexDigits (n : Nat) : List Char := Nat.toDigits 16 n

/-- The value of a hexadecimal digit. -/
def hexValue (c : Char) : Option Nat :=
  if '0' ≤ c ∧ c ≤ '9' then some (c.toNat - '0'.toNat)
  else if 'a' ≤ c ∧ c ≤ 'f' then some (c.toNat - 'a'.toNat + 10)
  else if 'A' ≤ c ∧ c ≤ 'F' then some (c.toNat - 'A'.toNat + 10)
  else none

/-- A hexadecimal digit has its value. -/
theorem hexValue_digitChar : ∀ n < 16, hexValue n.digitChar = some n := by decide

/-! ## Errors -/

/-- An error value. `errors.Is(err, store.ErrNotFound)` looks through the wrapping `%w` does. -/
inductive Error
  /-- `store.ErrNotFound`. -/
  | notFound
  /-- An error the database driver or the standard library returned, by its text. -/
  | driver (text : String)
  /-- `errors.New` and `fmt.Errorf` without `%w`. -/
  | new (text : String)
  /-- `fmt.Errorf` with one `%w`, by the text before and after it. -/
  | wrap (pre : String) (inner : Error) (post : String)
  deriving Repr, DecidableEq

/-- The text `err.Error()` returns. -/
def Error.text : Error → String
  | .notFound => "not found"
  | .driver t => t
  | .new t => t
  | .wrap pre e post => pre ++ e.text ++ post

/-- `errors.Is(err, store.ErrNotFound)`. -/
def Error.isNotFound : Error → Bool
  | .notFound => true
  | .wrap _ e _ => e.isNotFound
  | _ => false

section Results

variable {ε ε' α β : Type}

theorem map_eq_ok {f : α → β} {x : Except ε α} {b : β} :
    x.map f = .ok b ↔ ∃ a, x = .ok a ∧ f a = b := by
  cases x <;> simp [Except.map]

theorem bind_eq_ok {f : α → Except ε β} {x : Except ε α} {b : β} :
    (x >>= f) = .ok b ↔ ∃ a, x = .ok a ∧ f a = .ok b := by
  cases x <;> simp [bind, Except.bind]

theorem mapError_eq_ok {f : ε → ε'} {x : Except ε α} {a : α} :
    x.mapError f = .ok a ↔ x = .ok a := by
  cases x <;> simp [Except.mapError]

theorem toOption_mapError (f : ε → ε') (x : Except ε α) : (x.mapError f).toOption = x.toOption := by
  cases x <;> rfl

theorem toOption_bind (x : Except ε α) (f : α → Except ε β) :
    (x >>= f).toOption = x.toOption.bind fun a => (f a).toOption := by
  cases x <;> rfl

end Results

end Go
