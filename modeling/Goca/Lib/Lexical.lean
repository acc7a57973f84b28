import Mathlib.Data.List.Find
import Mathlib.Data.List.Infix

/-!
# Texts with quotes and comments

How a language such as SQL cuts its texts: a quote opens a stretch that the same quote closes,
where a doubled quote stands for itself and closes nothing; a comment runs from what opens it to
what closes it; every other symbol is bare. `Lexis.lex` reads a text so, and its tokens spell the
text again (`Lexis.spell_lex`).

`expand` puts other symbols in the place of each bare mark, counted from the left. Where neither the
mark nor these symbols have a part in quotes or comments, the text it leaves is read as the same
tokens around them (`Lexis.lex_expand`).
-/

set_option autoImplicit false

namespace Lexical

variable {α : Type} [DecidableEq α]

/-- A kind of comment: what opens it, which is not empty, and what closes it. -/
structure Comment (α : Type) where
  first : α
  more : List α
  close : List α
  deriving DecidableEq

/-- The quotes and the comments of a language. -/
structure Lexis (α : Type) where
  quote : α → Bool
  comments : List (Comment α)

/-- A piece of a text, as it is spelled. -/
inductive Token (α : Type)
  | bare (c : α)
  /-- What stands between two quotes, doubled ones included; the last of a text may be open. -/
  | quoted (q : α) (body : List α) (closed : Bool)
  | comment (text : List α)
  deriving DecidableEq

def Token.text : Token α → List α
  | .bare c => [c]
  | .quoted q body closed => q :: body ++ if closed then [q] else []
  | .comment text => text

/-- The text that some tokens spell. -/
def spell (ts : List (Token α)) : List α := ts.flatMap Token.text

omit [DecidableEq α] in
@[simp] theorem spell_cons (t : Token α) (ts : List (Token α)) :
    spell (t :: ts) = t.text ++ spell ts := rfl

omit [DecidableEq α] in
theorem spell_append (ts ts' : List (Token α)) : spell (ts ++ ts') = spell ts ++ spell ts' :=
  List.flatMap_append

omit [DecidableEq α] in
theorem spell_bare (l : List α) : spell (l.map Token.bare) = l := by
  induction l with
  | nil => rfl
  | cons c l ih => rw [List.map_cons, spell_cons, ih]; rfl

/-! ## Quoted stretches -/

/-- The rest of a text behind an opening quote: what is quoted, whether it is closed, and what
follows. -/
def readQuoted (q : α) : List α → List α × Bool × List α
  | [] => ([], false, [])
  | [c] => if c = q then ([], true, []) else ([c], false, [])
  | c :: d :: s =>
    if c = q then
      if d = q then
        let (body, more) := readQuoted q s
        (c :: d :: body, more)
      else ([], true, d :: s)
    else
      let (body, more) := readQuoted q (d :: s)
      (c :: body, more)

/-- The body of a quoted stretch: every quote in it is doubled. -/
inductive Doubled (q : α) : List α → Prop
  | nil : Doubled q []
  | other {c : α} {body : List α} (hc : c ≠ q) (h : Doubled q body) : Doubled q (c :: body)
  | quote {body : List α} (h : Doubled q body) : Doubled q (q :: q :: body)

/-- **What is read as quoted**: its body and its close spell the text. An open stretch takes all of
it, and behind a close stands no further quote. -/
structure IsQuoted (q : α) (s body : List α) (closed : Bool) (rest : List α) : Prop where
  spelled : body ++ (if closed then [q] else []) ++ rest = s
  doubled : Doubled q body
  open_ : closed = false → rest = []
  next : closed = true → rest.head? ≠ some q

theorem readQuoted_spec (q : α) (s : List α) :
    IsQuoted q s (readQuoted q s).1 (readQuoted q s).2.1 (readQuoted q s).2.2 := by
  induction s using readQuoted.induct (q := q) with
  | case1 => exact ⟨rfl, .nil, fun _ => rfl, by simp [readQuoted]⟩
  | case2 =>
    rw [readQuoted, if_pos rfl]
    exact ⟨rfl, .nil, by simp, by simp⟩
  | case3 c hc =>
    rw [readQuoted, if_neg hc]
    exact ⟨rfl, .other hc .nil, fun _ => rfl, by simp⟩
  | case4 s body more heq ih =>
    rw [readQuoted, if_pos rfl, if_pos rfl]
    exact ⟨by simpa using ih.spelled, .quote ih.doubled, ih.open_, ih.next⟩
  | case5 d s hd =>
    rw [readQuoted, if_pos rfl, if_neg hd]
    exact ⟨rfl, .nil, by simp, by simpa using hd⟩
  | case6 c d s hc body more heq ih =>
    rw [readQuoted, if_neg hc]
    exact ⟨by simpa using ih.spelled, .other hc ih.doubled, ih.open_, ih.next⟩

/-- **A quoted stretch is read back** whatever follows it, as long as that is no quote. -/
theorem Doubled.readQuoted_closed {q : α} {body : List α} (h : Doubled q body) {t : List α}
    (ht : t.head? ≠ some q) : readQuoted q (body ++ q :: t) = (body, true, t) := by
  induction h with
  | nil =>
    cases t with
    | nil => simp [readQuoted]
    | cons d t =>
      have hd : d ≠ q := fun hd => ht (by rw [hd]; rfl)
      rw [List.nil_append, readQuoted, if_pos rfl, if_neg hd]
  | @other c body hc _ ih =>
    obtain ⟨d, s, hs⟩ := List.exists_cons_of_ne_nil (l := body ++ q :: t) (by simp)
    rw [List.cons_append, hs, readQuoted, if_neg hc, ← hs, ih]
  | quote _ ih => rw [List.cons_append, List.cons_append, readQuoted, if_pos rfl, if_pos rfl, ih]

/-- An open stretch is read back. -/
theorem Doubled.readQuoted_open {q : α} {body : List α} (h : Doubled q body) :
    readQuoted q body = (body, false, []) := by
  induction h with
  | nil => rfl
  | @other c body hc _ ih =>
    cases body with
    | nil => rw [readQuoted, if_neg hc]
    | cons d s => rw [readQuoted, if_neg hc, ih]
  | quote _ ih => rw [readQuoted, if_pos rfl, if_pos rfl, ih]

/-! ## Comments -/

/-- Whether a symbol and what follows it open a comment of this kind. -/
def Comment.opens (k : Comment α) (c : α) (s : List α) : Bool :=
  k.first == c && k.more.isPrefixOf s

/-- A text up to the end of the first `close` in it, and what follows. -/
def readTo (close : List α) : List α → List α × List α
  | [] => ([], [])
  | c :: s =>
    if close <+: c :: s then (close, (c :: s).drop close.length)
    else
      let (before, after) := readTo close s
      (c :: before, after)

/-- **What is read up to a close**: together with what follows it spells the text, and where
something follows, it is read back in front of anything else. -/
structure IsReadTo (close s before after : List α) : Prop where
  spelled : before ++ after = s
  frame : after = [] ∨
    (close.length ≤ before.length ∧ ∀ t, readTo close (before ++ t) = (before, t))

/-- A close at the front of a text is all that is read. -/
theorem readTo_prefix (close t : List α) : readTo close (close ++ t) = (close, t) := by
  cases h : close ++ t with
  | nil =>
    obtain ⟨rfl, rfl⟩ := List.append_eq_nil_iff.mp h
    rfl
  | cons c s => rw [readTo, ← h, if_pos (List.prefix_append close t), List.drop_left]

theorem readTo_spec (close s : List α) :
    IsReadTo close s (readTo close s).1 (readTo close s).2 := by
  induction s with
  | nil => exact ⟨rfl, .inl rfl⟩
  | cons c s ih =>
    by_cases hclose : close <+: c :: s
    · obtain ⟨t, ht⟩ := hclose
      rw [← ht, readTo_prefix]
      exact ⟨rfl, .inr ⟨Nat.le_refl _, readTo_prefix close⟩⟩
    · rw [readTo, if_neg hclose]
      refine ⟨congrArg (c :: ·) ih.spelled, ih.frame.imp_right ?_⟩
      rintro ⟨hlength, hframe⟩
      refine ⟨Nat.le_succ_of_le hlength, ?_⟩
      intro t
      -- The close is no longer than what is read, so it is not found any earlier.
      have hno : ¬ close <+: c :: ((readTo close s).1 ++ t) := by
        intro h
        have hshort : close <+: c :: (readTo close s).1 :=
          List.prefix_of_prefix_length_le h (by simp) (Nat.le_succ_of_le hlength)
        apply hclose
        apply hshort.trans
        conv_rhs => rw [← ih.spelled]
        exact List.prefix_append (c :: _) _
      rw [List.cons_append, readTo, if_neg hno, hframe]

/-! ## Reading a text -/

namespace Lexis

variable (L : Lexis α)

/-- The first token of a text, and what follows it. -/
def next (c : α) (s : List α) : Token α × List α :=
  if L.quote c then
    let (body, closed, rest) := readQuoted c s
    (.quoted c body closed, rest)
  else
    match L.comments.find? (·.opens c s) with
    | some k =>
      let (body, rest) := readTo k.close (s.drop k.more.length)
      (.comment (c :: k.more ++ body), rest)
    | none => (.bare c, s)

/-- The tokens of a text; the fuel is its length. -/
def lexFrom : Nat → List α → List (Token α)
  | 0, _ => []
  | _ + 1, [] => []
  | fuel + 1, c :: s => (L.next c s).1 :: lexFrom fuel (L.next c s).2

def lex (s : List α) : List (Token α) := L.lexFrom s.length s

variable {L} {c : α} {s : List α}

theorem next_quote (h : L.quote c = true) :
    L.next c s = (.quoted c (readQuoted c s).1 (readQuoted c s).2.1, (readQuoted c s).2.2) := by
  rw [next, if_pos h]

theorem next_comment (h : L.quote c = false) {k : Comment α}
    (hk : L.comments.find? (·.opens c s) = some k) :
    L.next c s = (.comment (c :: k.more ++ (readTo k.close (s.drop k.more.length)).1),
      (readTo k.close (s.drop k.more.length)).2) := by
  rw [next, if_neg (Bool.eq_false_iff.mp h), hk]

theorem next_bare (h : L.quote c = false) (hk : L.comments.find? (·.opens c s) = none) :
    L.next c s = (.bare c, s) := by
  rw [next, if_neg (Bool.eq_false_iff.mp h), hk]

/-- The first token and what follows it spell the text. -/
theorem next_spelled (L : Lexis α) (c : α) (s : List α) :
    (L.next c s).1.text ++ (L.next c s).2 = c :: s := by
  cases hq : L.quote c with
  | true =>
    rw [next_quote hq]
    exact congrArg (c :: ·) (readQuoted_spec c s).spelled
  | false =>
    cases hk : L.comments.find? (·.opens c s) with
    | none => rw [next_bare hq hk]; rfl
    | some k =>
      rw [next_comment hq hk]
      have hopens : k.opens c s = true := List.find?_some (p := fun k : Comment α => k.opens c s) hk
      obtain ⟨t, rfl⟩ := List.isPrefixOf_iff_prefix.mp (Bool.and_eq_true_iff.mp hopens).2
      have hspelled := (readTo_spec k.close ((k.more ++ t).drop k.more.length)).spelled
      rw [List.drop_left] at hspelled ⊢
      show c :: k.more ++ _ ++ _ = _
      rw [List.append_assoc, hspelled, List.cons_append]

theorem length_next (L : Lexis α) (c : α) (s : List α) :
    (L.next c s).2.length ≤ s.length := by
  have hspelled := congrArg List.length (L.next_spelled c s)
  have hpos : 0 < (L.next c s).1.text.length := by
    cases hq : L.quote c with
    | true => rw [next_quote hq]; exact Nat.succ_pos _
    | false =>
      cases hk : L.comments.find? (·.opens c s) with
      | none => rw [next_bare hq hk]; exact Nat.succ_pos _
      | some k => rw [next_comment hq hk]; exact Nat.succ_pos _
  rw [List.length_append, List.length_cons] at hspelled
  omega

/-- More fuel than symbols changes nothing. -/
theorem lexFrom_eq {n m : Nat} (hn : s.length ≤ n) (hm : s.length ≤ m) :
    L.lexFrom n s = L.lexFrom m s := by
  induction n generalizing m s with
  | zero =>
    obtain rfl := List.length_eq_zero_iff.mp (Nat.le_zero.mp hn)
    cases m <;> rfl
  | succ n ih =>
    cases s with
    | nil => cases m <;> rfl
    | cons c s =>
      cases m with
      | zero => exact absurd hm (by simp)
      | succ m =>
        have hlength := L.length_next c s
        rw [List.length_cons] at hn hm
        exact congrArg _ (ih (by omega) (by omega))

@[simp] theorem lex_nil (L : Lexis α) : L.lex [] = [] := rfl

/-- **A text is read token by token.** -/
theorem lex_cons (L : Lexis α) (c : α) (s : List α) :
    L.lex (c :: s) = (L.next c s).1 :: L.lex (L.next c s).2 :=
  congrArg _ (lexFrom_eq (L.length_next c s) (Nat.le_refl _))

/-- Induction along the tokens of a text. -/
theorem lex_induction (L : Lexis α) {P : List α → Prop} (nil : P [])
    (cons : ∀ c s, P (L.next c s).2 → P (c :: s)) (s : List α) : P s := by
  induction hn : s.length using Nat.strong_induction_on generalizing s with
  | _ n ih =>
    cases s with
    | nil => exact nil
    | cons c s =>
      refine cons c s (ih _ ?_ _ rfl)
      have hlength := L.length_next c s
      rw [List.length_cons] at hn
      omega

/-- **The tokens of a text spell it.** -/
theorem spell_lex (L : Lexis α) (s : List α) : spell (L.lex s) = s := by
  induction s using L.lex_induction with
  | nil => rfl
  | cons c s ih => rw [lex_cons, spell_cons, ih, next_spelled]

/-! ## Replacing the marks of a text -/

/-- A symbol that has no part in quotes or in what opens a comment. -/
structure Inert (L : Lexis α) (c : α) : Prop where
  quote : L.quote c = false
  opens : ∀ k ∈ L.comments, c ≠ k.first ∧ c ∉ k.more

omit [DecidableEq α] in
theorem not_inert_quote {c : α} (h : L.quote c = true) : ¬ L.Inert c := fun hc =>
  absurd (hc.quote.symm.trans h) Bool.false_ne_true

/-- Inert symbols are bare wherever they stand. -/
theorem lex_inert {l : List α} (h : ∀ c ∈ l, L.Inert c) (s : List α) :
    L.lex (l ++ s) = l.map Token.bare ++ L.lex s := by
  induction l with
  | nil => rfl
  | cons c l ih =>
    have hc := h c List.mem_cons_self
    have hnone : L.comments.find? (·.opens c (l ++ s)) = none := by
      rw [List.find?_eq_none]
      intro k hk hopens
      exact (hc.opens k hk).1 (beq_iff_eq.mp (Bool.and_eq_true_iff.mp hopens).1).symm
    rw [List.cons_append, lex_cons, next_bare hc.quote hnone,
      ih fun c hc => h c (List.mem_cons_of_mem _ hc)]
    rfl

end Lexis

/-- Put `f i` in the place of the `i`-th bare mark, counted from `n + 1` on. -/
def expand (mark : α) (f : Nat → List α) : Nat → List (Token α) → List (Token α)
  | _, [] => []
  | n, .bare c :: ts =>
    if c = mark then (f (n + 1)).map Token.bare ++ expand mark f (n + 1) ts
    else .bare c :: expand mark f n ts
  | n, .quoted q body closed :: ts => .quoted q body closed :: expand mark f n ts
  | n, .comment text :: ts => .comment text :: expand mark f n ts

/-- How many marks of a text are bare. -/
def marks (mark : α) (ts : List (Token α)) : Nat := ts.count (.bare mark)

section Expand

variable {mark : α} {f : Nat → List α} {n : Nat} {t : Token α} {ts : List (Token α)}

theorem expand_mark : expand mark f n (.bare mark :: ts) =
    (f (n + 1)).map Token.bare ++ expand mark f (n + 1) ts := by
  rw [expand, if_pos rfl]

theorem expand_of_ne (h : t ≠ .bare mark) : expand mark f n (t :: ts) = t :: expand mark f n ts := by
  cases t with
  | bare c => rw [expand, if_neg fun hc => h (congrArg _ hc)]
  | quoted q body closed => rw [expand]
  | comment text => rw [expand]

/-- Without bare marks there is nothing to replace. -/
theorem expand_of_marks (h : marks mark ts = 0) (n : Nat) : expand mark f n ts = ts := by
  induction ts with
  | nil => rfl
  | cons t ts ih =>
    have hmem : Token.bare mark ∉ t :: ts := List.count_eq_zero.mp h
    have hts : marks mark ts = 0 :=
      List.count_eq_zero.mpr fun hm => hmem (List.mem_cons_of_mem t hm)
    rw [expand_of_ne fun ht => hmem (ht ▸ List.mem_cons_self), ih hts]

end Expand

omit [DecidableEq α] in
/-- Two texts that begin with the same words do so behind any text. -/
theorem prefix_append_congr {o u v : List α} (h : ∀ o', o' <:+ o → (o' <+: u ↔ o' <+: v))
    (x : List α) : o <+: x ++ u ↔ o <+: x ++ v := by
  induction x generalizing o with
  | nil => exact h o List.suffix_rfl
  | cons c x ih =>
    cases o with
    | nil => simp
    | cons d o =>
      rw [List.cons_append, List.cons_append, List.cons_prefix_cons, List.cons_prefix_cons,
        ih fun o' ho' => h o' (ho'.trans (List.suffix_cons d o))]

namespace Lexis

variable {L : Lexis α} {mark : α} {f : Nat → List α}

/-- What may be put in the place of marks: neither has a part in quotes and comments. -/
structure Replaces (L : Lexis α) (mark : α) (f : Nat → List α) : Prop where
  mark : L.Inert mark
  inert : ∀ n, ∀ c ∈ f n, L.Inert c
  nonempty : ∀ n, f n ≠ []

/-- What is left of a text once its marks are replaced. -/
def replaced (L : Lexis α) (mark : α) (f : Nat → List α) (n : Nat) (s : List α) : List α :=
  spell (expand mark f n (L.lex s))

/-- A first token that is no mark stays. -/
theorem replaced_cons {c : α} {s : List α} (h : (L.next c s).1 ≠ .bare mark) (n : Nat) :
    L.replaced mark f n (c :: s) = (L.next c s).1.text ++ L.replaced mark f n (L.next c s).2 := by
  rw [replaced, lex_cons, expand_of_ne h, spell_cons, replaced]

/-- A mark at the front is replaced. -/
theorem Replaces.replaced_mark (h : L.Replaces mark f) (n : Nat) (s : List α) :
    L.replaced mark f n (mark :: s) = f (n + 1) ++ L.replaced mark f (n + 1) s := by
  have hlex := lex_inert (L := L) (l := [mark]) (by simpa using h.mark) s
  rw [List.map_singleton, List.singleton_append, List.singleton_append] at hlex
  rw [replaced, hlex, expand_mark, spell_append, spell_bare, replaced]

/-- A text whose marks are replaced begins with the same words as before, where no symbol of the
words is inert. -/
theorem Replaces.prefix_iff (h : L.Replaces mark f) (s : List α) (n : Nat) {o : List α}
    (ho : ∀ c ∈ o, ¬ L.Inert c) : o <+: L.replaced mark f n s ↔ o <+: s := by
  induction s using L.lex_induction generalizing n o with
  | nil => rfl
  | cons c s ih =>
    by_cases hmark : (L.next c s).1 = .bare mark
    · cases o with
      | nil => simp
      | cons d o =>
        have hd := ho d List.mem_cons_self
        have hspelled := L.next_spelled c s
        rw [hmark] at hspelled
        obtain ⟨rfl, hs⟩ := List.cons.inj hspelled
        obtain ⟨e, l, hf⟩ := List.exists_cons_of_ne_nil (h.nonempty (n + 1))
        have he : L.Inert e := h.inert (n + 1) e (by simp [hf])
        rw [h.replaced_mark, hf, List.cons_append, List.cons_prefix_cons, List.cons_prefix_cons]
        constructor
        · rintro ⟨rfl, _⟩
          exact absurd he hd
        · rintro ⟨rfl, _⟩
          exact absurd h.mark hd
    · rw [replaced_cons hmark]
      conv_rhs => rw [← L.next_spelled c s]
      apply prefix_append_congr
      intro o' ho'
      exact ih n fun d hd => ho d (ho'.subset hd)

/-- A text that begins with the words of another, as far as quotes and comments can tell. -/
structure Follows (L : Lexis α) (rest u : List α) : Prop where
  prefix_iff : ∀ o : List α, (∀ c ∈ o, ¬ L.Inert c) → (o <+: u ↔ o <+: rest)
  nil : rest = [] → u = []

/-- Comments are opened alike in front of such a text. -/
theorem Follows.opens_eq {rest u : List α} (hu : L.Follows rest u) {k : Comment α}
    (hk : k ∈ L.comments) (c : α) (x : List α) : k.opens c (x ++ u) = k.opens c (x ++ rest) := by
  have hmore : ∀ d ∈ k.more, ¬ L.Inert d := fun d hd hinert => (hinert.opens k hk).2 hd
  have hiff : k.more <+: x ++ u ↔ k.more <+: x ++ rest :=
    prefix_append_congr (fun o ho => hu.prefix_iff o fun d hd => hmore d (ho.subset hd)) x
  rw [Comment.opens, Comment.opens, Bool.eq_iff_iff, Bool.and_eq_true, Bool.and_eq_true,
    List.isPrefixOf_iff_prefix, List.isPrefixOf_iff_prefix, hiff]

/-- **The first token is read back** in front of such a text. -/
theorem Follows.next_eq {c : α} {s u : List α} (hu : L.Follows (L.next c s).2 u) :
    ∃ s', c :: s' = (L.next c s).1.text ++ u ∧ L.next c s' = ((L.next c s).1, u) := by
  cases hq : L.quote c with
  | true =>
    have hspec := readQuoted_spec c s
    rw [next_quote hq] at hu ⊢
    generalize readQuoted c s = r at hspec hu
    obtain ⟨body, closed, rest⟩ := r
    refine ⟨body ++ (if closed then [c] else []) ++ u, rfl, ?_⟩
    rw [next_quote hq]
    cases closed with
    | true =>
      have hhead : u.head? ≠ some c := by
        intro hhead
        have hone : [c] <+: u := by
          obtain ⟨t, rfl⟩ := List.head?_eq_some_iff.mp hhead
          exact List.prefix_append [c] t
        obtain ⟨t, ht⟩ := (hu.prefix_iff [c] (by simpa using not_inert_quote hq)).mp hone
        exact hspec.next rfl (by rw [← ht]; rfl)
      simp [hspec.doubled.readQuoted_closed hhead]
    | false =>
      obtain rfl := hu.nil (hspec.open_ rfl)
      simp [hspec.doubled.readQuoted_open]
  | false =>
    cases hk : L.comments.find? (·.opens c s) with
    | none =>
      rw [next_bare hq hk] at hu ⊢
      refine ⟨u, rfl, next_bare hq ?_⟩
      rw [List.find?_eq_none] at hk ⊢
      intro k hmem
      exact hu.opens_eq hmem c [] ▸ hk k hmem
    | some k =>
      have hopens : k.opens c s = true := List.find?_some (p := fun k : Comment α => k.opens c s) hk
      obtain ⟨t, rfl⟩ := List.isPrefixOf_iff_prefix.mp (Bool.and_eq_true_iff.mp hopens).2
      rw [next_comment hq hk, List.drop_left] at hu ⊢
      have hspec := readTo_spec k.close t
      have hread : readTo k.close ((readTo k.close t).1 ++ u) = ((readTo k.close t).1, u) := by
        rcases hspec.frame with hrest | ⟨_, hframe⟩
        · have hall := hspec.spelled
          rw [hrest, List.append_nil] at hall
          rw [hu.nil hrest, List.append_nil, hall]
          exact Prod.ext hall hrest
        · exact hframe u
      have hsame : L.comments.find? (·.opens c (k.more ++ (readTo k.close t).1 ++ u)) = some k := by
        rw [← hk]
        apply List.find?_congr
        intro k' hk'
        rw [hu.opens_eq hk', List.append_assoc, hspec.spelled]
      refine ⟨k.more ++ (readTo k.close t).1 ++ u, rfl, ?_⟩
      rw [next_comment hq hsame, List.append_assoc, List.drop_left, hread]

/-- **A text with its marks replaced** is read as the tokens it was made of. -/
theorem Replaces.lex_replaced (h : L.Replaces mark f) (s : List α) (n : Nat) :
    L.lex (L.replaced mark f n s) = expand mark f n (L.lex s) := by
  induction s using L.lex_induction generalizing n with
  | nil => rfl
  | cons c s ih =>
    by_cases hmark : (L.next c s).1 = .bare mark
    · have hspelled := L.next_spelled c s
      rw [hmark] at hspelled
      obtain ⟨rfl, hrest⟩ := List.cons.inj hspelled
      have hs : (L.next mark s).2 = s := hrest
      rw [h.replaced_mark, lex_inert (h.inert (n + 1)), lex_cons, hmark, expand_mark, ← ih, hs]
    · have hfollows : L.Follows (L.next c s).2 (L.replaced mark f n (L.next c s).2) := by
        refine ⟨fun o ho => h.prefix_iff _ n ho, ?_⟩
        intro hrest
        rw [hrest]
        rfl
      obtain ⟨s', hs', hnext⟩ := hfollows.next_eq
      rw [replaced_cons hmark, ← hs', lex_cons, hnext, ih, lex_cons, expand_of_ne hmark]

end Lexis

end Lexical
