import Mathlib.Data.List.Chain
import Goca.Go.Decimal
import Goca.Lib.Lexical
import Goca.Store.Rebind

/-!
# Placeholders are numbered in place

`rebindQuery` follows the quotes of a text and nothing else. So it puts `$1, $2, ...` in the place
of the `?` that stand outside of quotes and changes no other byte, whatever the text
(`rebindLoop_eq` without comments). In a comment it takes a quote for a quote and a `?` for a
placeholder. Where the comments close their quotes and have no `?` outside of them, what it numbers
are the placeholders, and PostgreSQL reads from the result as many parameters, in the same order.
-/

set_option autoImplicit false

namespace Goca.Store.Rebind

open Lexical

/-! ## The texts -/

/-- The quotes of SQL: literals and identifiers. -/
def isQuote (c : UInt8) : Bool := c == singleQuote || c == doubleQuote

/-- Texts with quotes and no comments, as `rebindQuery` reads them. -/
def quotesOnly : Lexis UInt8 := ⟨isQuote, []⟩

/-- SQL: `--` up to the end of the line and `/* */` are comments. -/
def sql : Lexis UInt8 := ⟨isQuote, [⟨0x2d, [0x2d], [0x0a]⟩, ⟨0x2f, [0x2a], [0x2a, 0x2f]⟩]⟩

/-- The text of the `i`-th parameter. -/
def parameter (i : Nat) : List UInt8 := dollar :: itoa i

/-- A text with the `i`-th placeholder replaced by `$i`, and nothing else. -/
def numbered (L : Lexis UInt8) (query : List UInt8) : List UInt8 :=
  L.replaced questionMark parameter 0 query

/-- How many placeholders a text has. -/
def placeholders (query : List UInt8) : Nat := marks questionMark (sql.lex query)

/-- A piece of text that `rebindQuery` passes over: it closes the quotes that it opens, and no
question mark in it is bare. -/
def quiet (text : List UInt8) : Bool :=
  (quotesOnly.lex text).all fun t => match t with
    | .bare c => c != questionMark
    | .quoted _ _ closed => closed
    | .comment _ => true

/-- Every comment of a text is quiet. -/
def quietComments (L : Lexis UInt8) (query : List UInt8) : Bool :=
  (L.lex query).all fun t => match t with
    | .comment text => quiet text
    | _ => true

/-! ## The scan -/

/-- The loop inside of quotes. -/
def within (q : UInt8) (n : Nat) (s : List UInt8) : List UInt8 :=
  rebindLoop n (q == singleQuote) (q == doubleQuote) s

theorem within_quote {q : UInt8} (hq : isQuote q = true) (n : Nat) (s : List UInt8) :
    within q n (q :: s) = q :: rebindLoop n false false s := by
  obtain h | h := Bool.or_eq_true_iff.mp hq
  · obtain rfl := beq_iff_eq.mp h
    rfl
  · obtain rfl := beq_iff_eq.mp h
    rfl

theorem within_other {q c : UInt8} (hq : isQuote q = true) (hc : c ≠ q) (n : Nat)
    (s : List UInt8) : within q n (c :: s) = c :: within q n s := by
  obtain h | h := Bool.or_eq_true_iff.mp hq
  · obtain rfl := beq_iff_eq.mp h
    simp [within, rebindLoop, hc]
  · obtain rfl := beq_iff_eq.mp h
    have hne : (doubleQuote == singleQuote) = false := rfl
    simp [within, rebindLoop, hc, hne]

/-- A quote opens a stretch. -/
theorem rebindLoop_quote {q : UInt8} (hq : isQuote q = true) (n : Nat) (s : List UInt8) :
    rebindLoop n false false (q :: s) = q :: within q n s := by
  obtain h | h := Bool.or_eq_true_iff.mp hq
  · obtain rfl := beq_iff_eq.mp h
    rfl
  · obtain rfl := beq_iff_eq.mp h
    rfl

/-- A quoted stretch is passed over: a doubled quote closes it and opens it again. -/
theorem within_body {q : UInt8} (hq : isQuote q = true) {body : List UInt8} (h : Doubled q body)
    (n : Nat) (s : List UInt8) : within q n (body ++ s) = body ++ within q n s := by
  induction h with
  | nil => rfl
  | other hc _ ih => rw [List.cons_append, within_other hq hc, ih, List.cons_append]
  | quote _ ih =>
    rw [List.cons_append, List.cons_append, within_quote hq, rebindLoop_quote hq, ih]
    rfl

/-- A symbol that is no quote is bare to the loop. -/
theorem rebindLoop_bare {c : UInt8} (hq : isQuote c = false) (n : Nat) (s : List UInt8) :
    rebindLoop n false false (c :: s) =
      if c = questionMark then parameter (n + 1) ++ rebindLoop (n + 1) false false s
      else c :: rebindLoop n false false s := by
  obtain ⟨hsingle, hdouble⟩ := Bool.or_eq_false_iff.mp hq
  simp [rebindLoop, beq_eq_false_iff_ne.mp hsingle, beq_eq_false_iff_ne.mp hdouble, parameter]

/-- A quiet comment is passed over. -/
theorem rebindLoop_quiet {text : List UInt8} (h : quiet text = true) (n : Nat) (s : List UInt8) :
    rebindLoop n false false (text ++ s) = text ++ rebindLoop n false false s := by
  induction text using quotesOnly.lex_induction with
  | nil => rfl
  | cons c text ih =>
    rw [quiet, Lexis.lex_cons, List.all_cons, Bool.and_eq_true] at h
    obtain ⟨hfirst, hrest⟩ := h
    cases hq : quotesOnly.quote c with
    | true =>
      have hspec := readQuoted_spec c text
      rw [Lexis.next_quote hq] at hfirst hrest ih
      generalize readQuoted c text = r at hspec hfirst hrest ih
      obtain ⟨body, closed, rest⟩ := r
      obtain rfl : closed = true := hfirst
      rw [← hspec.spelled, List.cons_append, rebindLoop_quote hq, List.append_assoc,
        List.append_assoc, within_body hq hspec.doubled, if_pos rfl, List.singleton_append,
        within_quote hq, ih hrest]
      simp
    | false =>
      rw [Lexis.next_bare hq rfl] at hfirst hrest ih
      rw [List.cons_append, rebindLoop_bare hq, if_neg (bne_iff_ne.mp hfirst), ih hrest,
        List.cons_append]

/-- **The loop numbers the bare question marks** of a text whose comments are quiet. -/
theorem rebindLoop_eq {L : Lexis UInt8} (hL : L.quote = isQuote)
    (hreplaces : L.Replaces questionMark parameter) (s : List UInt8) (n : Nat)
    (h : quietComments L s = true) :
    rebindLoop n false false s = L.replaced questionMark parameter n s := by
  induction s using L.lex_induction generalizing n with
  | nil => rfl
  | cons c s ih =>
    rw [quietComments, Lexis.lex_cons, List.all_cons, Bool.and_eq_true] at h
    obtain ⟨hfirst, hrest⟩ := h
    cases hq : L.quote c with
    | true =>
      have hquote : isQuote c = true := hL ▸ hq
      have hspec := readQuoted_spec c s
      rw [Lexis.replaced_cons (by simp [Lexis.next_quote hq])]
      rw [Lexis.next_quote hq] at hrest ih ⊢
      generalize readQuoted c s = r at hspec hrest ih ⊢
      obtain ⟨body, closed, rest⟩ := r
      rw [← hspec.spelled, rebindLoop_quote hquote, List.append_assoc,
        within_body hquote hspec.doubled]
      cases closed with
      | true => simpa [Token.text, within_quote hquote] using ih n hrest
      | false =>
        obtain rfl := hspec.open_ rfl
        simp [Token.text, within, rebindLoop, Lexis.replaced, expand, spell]
    | false =>
      have hquote : isQuote c = false := hL ▸ hq
      cases hk : L.comments.find? (·.opens c s) with
      | some k =>
        have hspelled := L.next_spelled c s
        rw [Lexis.replaced_cons (by simp [Lexis.next_comment hq hk])]
        rw [Lexis.next_comment hq hk] at hfirst hrest ih hspelled ⊢
        rw [← hspelled, ← ih n hrest]
        exact rebindLoop_quiet hfirst n _
      | none =>
        rw [Lexis.next_bare hq hk] at hrest ih
        rw [rebindLoop_bare hquote]
        by_cases hmark : c = questionMark
        · rw [if_pos hmark, hmark, hreplaces.replaced_mark, ih (n + 1) hrest]
        · rw [if_neg hmark, Lexis.replaced_cons (by simpa [Lexis.next_bare hq hk] using hmark),
            Lexis.next_bare hq hk, ih n hrest]
          rfl

/-- Decimal digits. -/
def isDigit (c : UInt8) : Bool := 0x30 ≤ c && c ≤ 0x39

/-- The byte of a decimal digit. -/
theorem toNat_toUInt8 {d : Char} (h : d.isDigit = true) : d.toUInt8.toNat = d.toNat := by
  simp only [Char.isDigit, Bool.and_eq_true, decide_eq_true_eq, UInt32.le_iff_toNat_le] at h
  have hhigh : d.toNat ≤ 57 := h.2
  exact Nat.mod_eq_of_lt (Nat.lt_of_le_of_lt hhigh (by decide))

theorem isDigit_of_mem_itoa {n : Nat} {c : UInt8} (h : c ∈ itoa n) : isDigit c = true := by
  obtain ⟨d, hd, rfl⟩ := List.mem_map.mp h
  have hdigit : d.isDigit = true := Nat.isDigit_of_mem_toDigits (by decide) (by decide) hd
  have hbyte := toNat_toUInt8 hdigit
  simp only [Char.isDigit, Bool.and_eq_true, decide_eq_true_eq, UInt32.le_iff_toNat_le] at hdigit
  simp only [isDigit, Bool.and_eq_true, decide_eq_true_eq, UInt8.le_iff_toNat_le, hbyte]
  exact hdigit

/-- The bytes of placeholders and of parameters. -/
def isMarkup (c : UInt8) : Bool := isDigit c || c == questionMark || c == dollar

theorem ne_of_isMarkup {c d : UInt8} (hc : isMarkup c = true) (hd : isMarkup d = false) :
    c ≠ d := by
  rintro rfl
  exact absurd (hc.symm.trans hd) (by decide)

/-- These bytes have no part in quotes and comments. -/
theorem inert_of_isMarkup {L : Lexis UInt8} (hL : L = quotesOnly ∨ L = sql) {c : UInt8}
    (hc : isMarkup c = true) : L.Inert c := by
  have hquote : isQuote c = false := by
    simp [isQuote, ne_of_isMarkup hc (d := singleQuote) rfl,
      ne_of_isMarkup hc (d := doubleQuote) rfl]
  rcases hL with rfl | rfl
  · exact ⟨hquote, by simp [quotesOnly]⟩
  · refine ⟨hquote, ?_⟩
    have hdash := ne_of_isMarkup hc (d := 0x2d) rfl
    have hslash := ne_of_isMarkup hc (d := 0x2f) rfl
    have hstar := ne_of_isMarkup hc (d := 0x2a) rfl
    simp [sql, hdash, hslash, hstar]

theorem replaces {L : Lexis UInt8} (hL : L = quotesOnly ∨ L = sql) :
    L.Replaces questionMark parameter where
  mark := inert_of_isMarkup hL rfl
  nonempty _ := List.cons_ne_nil _ _
  inert n c hc := by
    apply inert_of_isMarkup hL
    rcases List.mem_cons.mp hc with rfl | hc
    · rfl
    · simp [isMarkup, isDigit_of_mem_itoa hc]

/-- A text without question marks stays as it is. -/
theorem numbered_of_not_mem (L : Lexis UInt8) {query : List UInt8} (h : questionMark ∉ query) :
    numbered L query = query := by
  have hbare : marks questionMark (L.lex query) = 0 := by
    rw [marks, List.count_eq_zero]
    intro hmem
    apply h
    rw [← L.spell_lex query]
    exact List.mem_flatMap.mpr ⟨_, hmem, List.mem_singleton_self _⟩
  rw [numbered, Lexis.replaced, expand_of_marks hbare, Lexis.spell_lex]

/-- **`rebindQuery` numbers the bare question marks** of a text whose comments are quiet. -/
theorem rebindQuery_eq {L : Lexis UInt8} (hL : L = quotesOnly ∨ L = sql) {query : List UInt8}
    (h : quietComments L query = true) : rebindQuery query = numbered L query := by
  unfold rebindQuery
  split
  · exact rebindLoop_eq (by rcases hL with rfl | rfl <;> rfl) (replaces hL) query 0 h
  · next hmark => exact (numbered_of_not_mem L (by simpa using hmark)).symm

/-- Without comments in the language every text is quiet. -/
theorem quietComments_quotesOnly (query : List UInt8) :
    quietComments quotesOnly query = true := by
  induction query using quotesOnly.lex_induction with
  | nil => rfl
  | cons c s ih =>
    rw [quietComments, Lexis.lex_cons, List.all_cons, Bool.and_eq_true]
    refine ⟨?_, ih⟩
    cases hq : quotesOnly.quote c with
    | true => rw [Lexis.next_quote hq]
    | false => rw [Lexis.next_bare hq rfl]

/-! ## Parameters -/

/-- The bytes that PostgreSQL reads on in a name or a number: letters, digits, the underscore and
everything outside ASCII. -/
def isWord (c : UInt8) : Bool :=
  isDigit c || (0x41 ≤ c && c ≤ 0x5a) || (0x61 ≤ c && c ≤ 0x7a) || c == 0x5f || 0x80 ≤ c

/-- The digits that some tokens begin with. -/
def leadingDigits : List (Token UInt8) → List UInt8
  | .bare c :: ts => if isDigit c then c :: leadingDigits ts else []
  | _ => []

/-- The number that decimal digits write. -/
def decimal (ds : List UInt8) : Nat := ds.foldl (fun a c => 10 * a + (c.toNat - 48)) 0

/-- The parameters that PostgreSQL reads, by their numbers: a dollar sign and the digits behind it,
unless the dollar sign goes on with a word. -/
def parametersFrom : Bool → List (Token UInt8) → List Nat
  | _, [] => []
  | inWord, .bare c :: ts =>
    if c = dollar ∧ inWord = false ∧ leadingDigits ts ≠ [] then
      decimal (leadingDigits ts) :: parametersFrom true ts
    else parametersFrom (isWord c || c == dollar && inWord) ts
  | _, _ :: ts => parametersFrom false ts

def parameters (query : List UInt8) : List Nat := parametersFrom false (sql.lex query)

/-- A token that a placeholder must not touch: a byte of a word, or another placeholder. -/
def clings : Token UInt8 → Bool
  | .bare c => isWord c || c == questionMark
  | _ => false

/-- The placeholders stand apart from words and from each other, and no dollar sign is bare. -/
structure Apart (ts : List (Token UInt8)) : Prop where
  dollar : Token.bare dollar ∉ ts
  chain : ts.IsChain fun t u =>
    t = .bare questionMark ∨ u = .bare questionMark → ¬ (clings t = true ∧ clings u = true)

instance (ts : List (Token UInt8)) : Decidable (Apart ts) :=
  decidable_of_iff (Token.bare Rebind.dollar ∉ ts ∧ ts.IsChain fun t u =>
    t = .bare questionMark ∨ u = .bare questionMark → ¬ (clings t = true ∧ clings u = true))
    ⟨fun h => ⟨h.1, h.2⟩, fun h => ⟨h.dollar, h.chain⟩⟩

theorem decimal_itoa (n : Nat) : decimal (itoa n) = n := by
  have hvalue (l : List Char) (hl : ∀ c ∈ l, c.isDigit = true) :
      decimal (l.map Char.toUInt8) = Go.digitsValue l := by
    rw [decimal, Go.digitsValue, List.foldl_map]
    apply List.foldl_ext
    intro a c hc
    rw [toNat_toUInt8 (hl c hc)]
    rfl
  rw [itoa, hvalue _ fun c hc => Nat.isDigit_of_mem_toDigits (by decide) (by decide) hc,
    Go.digitsValue_toDigits]

theorem itoa_ne_nil (n : Nat) : itoa n ≠ [] := by
  simp [itoa, Nat.toDigits_ne_nil]

/-- The digits behind a dollar sign end where no digit follows. -/
theorem leadingDigits_append {ds : List UInt8} (hds : ∀ c ∈ ds, isDigit c = true)
    {ts : List (Token UInt8)} (hts : leadingDigits ts = []) :
    leadingDigits (ds.map Token.bare ++ ts) = ds := by
  induction ds with
  | nil => exact hts
  | cons c ds ih =>
    rw [List.map_cons, List.cons_append, leadingDigits, if_pos (hds c List.mem_cons_self),
      ih fun c hc => hds c (List.mem_cons_of_mem _ hc)]

/-- Digits go on with a word. -/
theorem parametersFrom_digits {ds : List UInt8} (hds : ∀ c ∈ ds, isDigit c = true)
    (ts : List (Token UInt8)) :
    parametersFrom true (ds.map Token.bare ++ ts) = parametersFrom true ts := by
  induction ds with
  | nil => rfl
  | cons c ds ih =>
    have hword : isWord c = true := by simp [isWord, hds c List.mem_cons_self]
    rw [List.map_cons, List.cons_append, parametersFrom, if_neg (by simp), hword, Bool.true_or,
      ih fun c hc => hds c (List.mem_cons_of_mem _ hc)]

/-- What stands behind the first token of texts that are apart. -/
theorem Apart.cons {t : Token UInt8} {ts : List (Token UInt8)} (h : Apart (t :: ts)) :
    Apart ts ∧ ∀ u ∈ ts.head?,
      t = .bare questionMark ∨ u = .bare questionMark → ¬ (clings t = true ∧ clings u = true) := by
  obtain ⟨hhead, hchain⟩ := List.isChain_cons.mp h.chain
  exact ⟨⟨fun hmem => h.dollar (List.mem_cons_of_mem t hmem), hchain⟩, hhead⟩

theorem clings_questionMark : clings (.bare questionMark) = true := rfl

/-- No digit follows where the next token does not cling. -/
theorem leadingDigits_expand {ts : List (Token UInt8)} (h : ∀ u ∈ ts.head?, clings u = false)
    (n : Nat) : leadingDigits (expand questionMark parameter n ts) = [] := by
  cases ts with
  | nil => rfl
  | cons u ts =>
    have hu := h u rfl
    have hne : u ≠ .bare questionMark := by
      rintro rfl
      cases hu
    rw [expand_of_ne hne]
    cases u with
    | bare c =>
      have hdigit : isDigit c = false := by
        simp only [clings, isWord, Bool.or_eq_false_iff] at hu
        exact hu.1.1.1.1.1
      rw [leadingDigits, if_neg (Bool.eq_false_iff.mp hdigit)]
    | quoted q body closed => rfl
    | comment text => rfl

/-- **PostgreSQL reads the numbered placeholders**, one after the other. -/
theorem parametersFrom_expand {ts : List (Token UInt8)} (h : Apart ts) (n : Nat) {inWord : Bool}
    (hhead : inWord = true → ts.head? ≠ some (.bare questionMark)) :
    parametersFrom inWord (expand questionMark parameter n ts) =
      List.range' (n + 1) (marks questionMark ts) := by
  induction ts generalizing n inWord with
  | nil => rfl
  | cons t ts ih =>
    obtain ⟨hts, hnext⟩ := h.cons
    by_cases hmark : t = .bare questionMark
    · subst hmark
      have hword : inWord = false := Bool.eq_false_iff.mpr fun hword => hhead hword rfl
      have hclear : ∀ u ∈ ts.head?, clings u = false := fun u hu =>
        Bool.eq_false_iff.mpr fun hclings => hnext u hu (.inl rfl) ⟨rfl, hclings⟩
      have hdigits : ∀ c ∈ itoa (n + 1), isDigit c = true := fun c => isDigit_of_mem_itoa
      have hread : leadingDigits ((itoa (n + 1)).map Token.bare ++
          expand questionMark parameter (n + 1) ts) = itoa (n + 1) :=
        leadingDigits_append hdigits (leadingDigits_expand hclear (n + 1))
      have hnot : ts.head? ≠ some (.bare questionMark) := fun hu =>
        absurd ((hclear _ hu).symm.trans clings_questionMark) (by decide)
      rw [expand_mark, parameter, List.map_cons, List.cons_append, parametersFrom,
        if_pos ⟨rfl, hword, by rw [hread]; exact itoa_ne_nil (n + 1)⟩, hread, decimal_itoa,
        parametersFrom_digits hdigits, ih hts (n + 1) fun _ => hnot, marks, marks,
        List.count_cons_self, List.range'_succ]
    · rw [expand_of_ne hmark, marks, List.count_cons_of_ne hmark]
      cases t with
      | bare c =>
        have hdollar : c ≠ dollar := by
          rintro rfl
          exact h.dollar List.mem_cons_self
        rw [parametersFrom, if_neg fun hc => hdollar hc.1, beq_false_of_ne hdollar,
          Bool.false_and, Bool.or_false]
        apply ih hts n
        intro hc hu
        exact hnext _ hu (.inr rfl) ⟨by simp [clings, hc], rfl⟩
      | quoted q body closed => exact ih hts n (by simp)
      | comment text => exact ih hts n (by simp)

/-! ## The same arguments on both databases -/

section Arguments

variable {V : Type}

/-- The arguments that SQLite binds, in the order of the text: the `i`-th to the `i`-th
placeholder. -/
def boundBySQLite (query : List UInt8) (args : List (Value V)) : List (Option (Value V)) :=
  (List.range (placeholders query)).map (args[·]?)

/-- The arguments that PostgreSQL binds, in the order of the text: each parameter names its own. -/
def boundByPostgres (query : List UInt8) (args : List (Value V)) : List (Option (Value V)) :=
  (parameters query).map fun n => args[n - 1]?

end Arguments

/-- **Placeholders are rebound exactly.** Every text comes out with the `?` outside of its quotes
numbered and nothing else changed, where a comment is text like any other. Where no comment leaves
a quote open or has a bare question mark, these are the placeholders of the text as SQL reads it.
Where they stand apart, PostgreSQL reads as many parameters, numbered from one on, and binds to them
in the order of the text what SQLite binds to the placeholders. -/
theorem rebindQuery_exact {V : Type} (query : List UInt8) (args : List (Value V)) :
    rebindQuery query = numbered quotesOnly query ∧
    (quietComments sql query = true → rebindQuery query = numbered sql query ∧
      (Apart (sql.lex query) →
        parameters (rebindQuery query) = List.range' 1 (placeholders query) ∧
        boundByPostgres (handed query args).1 (handed query args).2 =
          (boundBySQLite query args).map (Option.map Value.normalizeBool))) := by
  refine ⟨rebindQuery_eq (.inl rfl) (quietComments_quotesOnly query), ?_⟩
  intro hquiet
  have heq : rebindQuery query = numbered sql query := rebindQuery_eq (.inr rfl) hquiet
  refine ⟨heq, ?_⟩
  intro hapart
  have hparameters : parameters (rebindQuery query) = List.range' 1 (placeholders query) := by
    rw [heq, parameters, numbered, (replaces (.inr rfl)).lex_replaced,
      parametersFrom_expand hapart 0 (by simp), placeholders]
  refine ⟨hparameters, ?_⟩
  show (parameters (rebindQuery query)).map _ = _
  rw [hparameters, boundBySQLite, List.range'_eq_map_range, List.map_map, List.map_map]
  apply List.map_congr_left
  intro i _
  simp [handed, normalizeBoolArgs]

/-- A query with a quoted question mark, a doubled quote and a comment. -/
def renameQuery : List UInt8 :=
  "UPDATE cas SET name = ?, note = 'it''s?' -- by \"id\"\nWHERE \"id\" = ?".toUTF8.data.toList

/-- Both placeholders of the query are numbered, and bind the two arguments in their order. -/
theorem renameQuery_exact :
    rebindQuery renameQuery =
        "UPDATE cas SET name = $1, note = 'it''s?' -- by \"id\"\nWHERE \"id\" = $2".toUTF8.data.toList ∧
      parameters (rebindQuery renameQuery) = [1, 2] ∧
      boundByPostgres (handed renameQuery [.other "root", .bool true]).1
          (handed renameQuery [.other "root", .bool true]).2 =
        [some (.other "root"), some (.int64 1)] := by
  have hquiet : quietComments sql renameQuery = true := by decide +kernel
  have hapart : Apart (sql.lex renameQuery) := by decide +kernel
  have hexact := rebindQuery_exact renameQuery [.other "root", .bool true]
  obtain ⟨hnumbered, hparameters, hbound⟩ :=
    And.intro (hexact.2 hquiet).1 ((hexact.2 hquiet).2 hapart)
  refine ⟨hnumbered.trans (by decide +kernel), hparameters.trans (by decide +kernel),
    hbound.trans (by decide +kernel)⟩

/-- A query whose comment has an apostrophe. -/
def apostropheQuery : List UInt8 :=
  "SELECT id FROM cas -- the CA's row\nWHERE slug = ?".toUTF8.data.toList

/-- **An apostrophe in a comment hides the placeholders behind it**: the text stays as it is, and
PostgreSQL finds no parameter for the argument. -/
theorem apostrophe_hides_placeholder :
    rebindQuery apostropheQuery ≠ numbered sql apostropheQuery ∧
      placeholders apostropheQuery = 1 ∧ parameters (rebindQuery apostropheQuery) = [] := by
  decide +kernel

end Goca.Store.Rebind
