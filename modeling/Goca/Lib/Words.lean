import Mathlib.Data.List.DropRight

/-!
# Texts of words with single separators

A text over any alphabet falls into words, the maximal runs of letters. `collapse` puts one separator
for every run of other symbols; without the separators at its ends it is the words of the text with
single separators between them (`trim_collapse`). A text that already has this form is left alone.

Cutting such a text off after `n` symbols keeps the form unless the cut falls right behind a
separator, that is, unless a proper prefix of the words is `n - 1` symbols long (`joined_take_iff`).
-/

set_option autoImplicit false

namespace Words

variable {α : Type}

/-- A word: letters, and at least one. -/
structure IsWord (p : α → Bool) (w : List α) : Prop where
  nonempty : w ≠ []
  letters : ∀ c ∈ w, p c = true

/-- The words of a text. -/
def words (p : α → Bool) (l : List α) : List (List α) :=
  (l.splitOnP fun c => !p c).filter fun w => !w.isEmpty

/-- **Joined**: one word or more, with single separators between them. -/
def Joined (p : α → Bool) (sep : α) (t : List α) : Prop :=
  ∃ ws : List (List α), ws ≠ [] ∧ (∀ w ∈ ws, IsWord p w) ∧ t = [sep].intercalate ws

/-- One separator for every run of symbols that are no letters; `inRun` says whether such a run is
open. -/
def collapse (p : α → Bool) (sep : α) : Bool → List α → List α
  | _, [] => []
  | inRun, c :: l =>
    if p c then c :: collapse p sep false l
    else if inRun then collapse p sep true l
    else sep :: collapse p sep true l

variable {p : α → Bool} {sep : α} {l : List α}

/-! ## Joined words -/

/-- Behind the first word every word has a separator in front. -/
theorem intercalate_cons (w : List α) (ws : List (List α)) :
    [sep].intercalate (w :: ws) = w ++ ws.flatMap (sep :: ·) := by
  induction ws generalizing w with
  | nil => simp
  | cons v ws ih => simp [ih v]

theorem intercalate_append {front back : List (List α)} (hfront : front ≠ []) (hback : back ≠ []) :
    [sep].intercalate (front ++ back) =
      [sep].intercalate front ++ sep :: [sep].intercalate back := by
  obtain ⟨w, ws, rfl⟩ := List.exists_cons_of_ne_nil hfront
  obtain ⟨v, vs, rfl⟩ := List.exists_cons_of_ne_nil hback
  rw [List.cons_append, intercalate_cons, intercalate_cons, intercalate_cons]
  simp

theorem joined_word {w : List α} (hw : IsWord p w) : Joined p sep w :=
  ⟨[w], by simp, by simpa using hw, by simp⟩

/-- A word in front of a joined text, with a separator between them. -/
theorem Joined.cons {w t : List α} (hw : IsWord p w) (ht : Joined p sep t) :
    Joined p sep (w ++ sep :: t) := by
  obtain ⟨ws, hne, hws, rfl⟩ := ht
  refine ⟨w :: ws, by simp, by simpa using ⟨hw, hws⟩, ?_⟩
  rw [List.intercalate_cons_of_ne_nil hne]
  simp

/-- **Induction over a joined text.** -/
theorem Joined.induction {P : List α → Prop} (word : ∀ w, IsWord p w → P w)
    (cons : ∀ w t, IsWord p w → Joined p sep t → P t → P (w ++ sep :: t)) {t : List α}
    (ht : Joined p sep t) : P t := by
  obtain ⟨ws, hne, hws, rfl⟩ := ht
  induction ws with
  | nil => exact absurd rfl hne
  | cons w ws ih =>
    simp only [List.mem_cons, forall_eq_or_imp] at hws
    by_cases hnil : ws = []
    · subst hnil
      simpa using word w hws.1
    · rw [List.intercalate_cons_of_ne_nil hnil, List.append_assoc]
      exact cons w _ hws.1 ⟨ws, hnil, hws.2, rfl⟩ (ih hnil hws.2)

/-- A joined text begins and ends with a letter. -/
theorem Joined.ends {t : List α} (ht : Joined p sep t) :
    (∃ c rest, t = c :: rest ∧ p c = true) ∧ ∃ rest c, t = rest ++ [c] ∧ p c = true := by
  have hword {w : List α} (hw : IsWord p w) :
      (∃ c rest, w = c :: rest ∧ p c = true) ∧ ∃ rest c, w = rest ++ [c] ∧ p c = true := by
    constructor
    · obtain ⟨c, rest, rfl⟩ := List.exists_cons_of_ne_nil hw.nonempty
      exact ⟨c, rest, rfl, hw.letters c List.mem_cons_self⟩
    · obtain ⟨rest, c, rfl⟩ := List.eq_nil_or_concat' w |>.resolve_left hw.nonempty
      exact ⟨rest, c, rfl, hw.letters c (by simp)⟩
  refine ht.induction (fun w hw => hword hw) ?_
  intro w t hw _ ih
  obtain ⟨c, rest, rfl, hc⟩ := (hword hw).1
  obtain ⟨front, d, rfl, hd⟩ := ih.2
  exact ⟨⟨c, rest ++ sep :: (front ++ [d]), rfl, hc⟩, c :: rest ++ sep :: front, d, by simp, hd⟩

/-- A joined text consists of letters and separators. -/
theorem Joined.mem {t : List α} (ht : Joined p sep t) : ∀ c ∈ t, p c = true ∨ c = sep := by
  refine ht.induction (P := fun t => ∀ c ∈ t, p c = true ∨ c = sep) ?_ ?_
  · exact fun w hw c hc => .inl (hw.letters c hc)
  · intro w t hw _ ih c hc
    simp only [List.mem_append, List.mem_cons] at hc
    rcases hc with hc | rfl | hc
    · exact .inl (hw.letters c hc)
    · exact .inr rfl
    · exact ih c hc

/-! ## Cutting a joined text off -/

/-- The cut right behind the separator that follows some of the words. -/
theorem take_behind_separator {front back : List (List α)} (hfront : front ≠ [])
    (hback : back ≠ []) :
    ([sep].intercalate (front ++ back)).take (([sep].intercalate front).length + 1) =
      [sep].intercalate front ++ [sep] := by
  rw [intercalate_append hfront hback, List.take_append, List.take_of_length_le (by simp)]
  simp

/-- A cut that falls nowhere behind a separator keeps the form. -/
theorem joined_take {ws : List (List α)} (hne : ws ≠ []) (hws : ∀ w ∈ ws, IsWord p w) {n : Nat}
    (hn : 0 < n) (h : ∀ front back, front ≠ [] → back ≠ [] → ws = front ++ back →
      ([sep].intercalate front).length + 1 ≠ n) :
    Joined p sep (([sep].intercalate ws).take n) := by
  induction ws generalizing n with
  | nil => exact absurd rfl hne
  | cons w ws ih =>
    simp only [List.mem_cons, forall_eq_or_imp] at hws
    obtain ⟨hw, hws⟩ := hws
    by_cases hrest : ws = []
    · subst hrest
      rw [List.intercalate_singleton]
      apply joined_word
      refine ⟨?_, fun c hc => hw.letters c (List.mem_of_mem_take hc)⟩
      simp [hw.nonempty]
      omega
    rw [List.intercalate_cons_of_ne_nil hrest, List.append_assoc, List.take_append]
    by_cases hinside : n ≤ w.length
    · apply joined_word
      refine ⟨?_, ?_⟩
      · simp [hw.nonempty]
        omega
      · intro c hc
        have hc : c ∈ w.take n := by simpa [Nat.sub_eq_zero_of_le hinside] using hc
        exact hw.letters c (List.mem_of_mem_take hc)
    · have hbehind : w.length + 1 ≠ n := by simpa using h [w] ws (by simp) hrest rfl
      obtain ⟨m, hm, rfl⟩ : ∃ m, 0 < m ∧ n = w.length + (m + 1) :=
        ⟨n - w.length - 1, by omega, by omega⟩
      have hcut : Joined p sep (([sep].intercalate ws).take m) := by
        apply ih hrest hws hm
        rintro front back hfront hback rfl hlength
        apply h (w :: front) back (by simp) hback rfl
        rw [List.intercalate_cons_of_ne_nil hfront]
        simp
        omega
      rw [List.take_of_length_le (by omega)]
      simpa using hcut.cons hw

/-- **Where a cut keeps the form.** The first `n` symbols of joined words are joined words, unless
some of the words are `n - 1` symbols long and more words follow them. -/
theorem joined_take_iff (hsep : p sep = false) {ws : List (List α)} (hne : ws ≠ [])
    (hws : ∀ w ∈ ws, IsWord p w) {n : Nat} (hn : 0 < n) :
    Joined p sep (([sep].intercalate ws).take n) ↔ ∀ front back, front ≠ [] → back ≠ [] →
      ws = front ++ back → ([sep].intercalate front).length + 1 ≠ n := by
  constructor
  · rintro hjoined front back hfront hback rfl rfl
    obtain ⟨rest, c, hlast, hc⟩ := hjoined.ends.2
    rw [take_behind_separator hfront hback] at hlast
    have hsame := congrArg List.getLast? hlast
    simp only [List.getLast?_append, List.getLast?_singleton, Option.some_or,
      Option.some.injEq] at hsame
    rw [← hsame, hsep] at hc
    cases hc
  · exact joined_take hne hws hn

/-! ## Collapsing -/

/-- No part of a split text contains a separator. -/
theorem not_of_mem_splitOnP {q : α → Bool} {t f : List α} (hf : f ∈ t.splitOnP q) :
    ∀ c ∈ f, q c = false := by
  induction t generalizing f with
  | nil =>
    rw [List.splitOnP_nil, List.mem_singleton] at hf
    subst hf
    exact fun c hc => absurd hc List.not_mem_nil
  | cons d t ih =>
    obtain ⟨h, tl, hsplit⟩ := List.exists_cons_of_ne_nil (List.splitOnP_ne_nil q t)
    rw [List.splitOnP_cons_eq_if_modifyHead, hsplit] at hf
    rw [hsplit] at ih
    split at hf
    · rcases List.mem_cons.mp hf with rfl | hf
      · exact fun c hc => absurd hc List.not_mem_nil
      · exact ih hf
    · next hd =>
      rw [List.modifyHead_cons] at hf
      rcases List.mem_cons.mp hf with rfl | hf
      · intro c hc
        rcases List.mem_cons.mp hc with rfl | hc
        · exact Bool.eq_false_iff.mpr hd
        · exact ih List.mem_cons_self c hc
      · exact ih (List.mem_cons_of_mem _ hf)

theorem isWord_of_mem_words {w : List α} (hw : w ∈ words p l) : IsWord p w := by
  obtain ⟨hw, hne⟩ := List.mem_filter.mp hw
  exact ⟨by simpa using hne, fun c hc => by simpa using not_of_mem_splitOnP hw c hc⟩

/-- Dropping at the back of a text with one more symbol in front. -/
theorem rdropWhile_cons (q : α → Bool) (c : α) (t : List α) :
    (c :: t).rdropWhile q =
      if t.rdropWhile q = [] then (if q c then [] else [c]) else c :: t.rdropWhile q := by
  simp only [List.rdropWhile, List.reverse_cons, List.dropWhile_append, List.isEmpty_iff,
    List.reverse_eq_nil_iff]
  split
  · rw [List.dropWhile_cons]
    split <;> rfl
  · rw [List.reverse_append]
    rfl

/-- Collapsing makes no text longer. -/
theorem length_collapse (inRun : Bool) (l : List α) :
    (collapse p sep inRun l).length ≤ l.length := by
  induction l generalizing inRun with
  | nil => simp [collapse]
  | cons c l ih =>
    unfold collapse
    split
    · simpa using ih false
    · split
      · simpa using (ih true).trans (Nat.le_succ _)
      · simpa using ih true

/-- Behind a separator a collapsed text goes on with a letter. -/
theorem head_collapse (l : List α) : ∀ c ∈ (collapse p sep true l).head?, p c = true := by
  induction l with
  | nil => simp [collapse]
  | cons c l ih =>
    unfold collapse
    by_cases hc : p c = true
    · simp [hc]
    · simpa [hc] using ih

section Trim

variable {q : α → Bool}

/-- Dropping at both ends makes no text longer. -/
theorem length_trim (q : α → Bool) (t : List α) : ((t.dropWhile q).rdropWhile q).length ≤ t.length :=
  (List.rdropWhile_prefix q _).length_le.trans (List.dropWhile_sublist q).length_le

/-- The back of a collapsed text: behind a separator it is the joined words, and otherwise the first
part of the text comes before them, which may be empty. -/
theorem rdropWhile_collapse (hsep : q sep = true) (hletter : ∀ c, p c = true → q c = false)
    {h : List α} {tl : List (List α)} (hsplit : (l.splitOnP fun c => !p c) = h :: tl) :
    (collapse p sep true l).rdropWhile q =
        [sep].intercalate ((h :: tl).filter fun w => !w.isEmpty) ∧
      (collapse p sep false l).rdropWhile q =
        h ++ (tl.filter fun w => !w.isEmpty).flatMap (sep :: ·) := by
  induction l generalizing h tl with
  | nil =>
    obtain ⟨rfl, rfl⟩ : h = [] ∧ tl = [] := by simpa [eq_comm] using hsplit
    simp [collapse]
  | cons c l ih =>
    obtain ⟨h', tl', hl⟩ := List.exists_cons_of_ne_nil (List.splitOnP_ne_nil (fun c => !p c) l)
    obtain ⟨htrue, hfalse⟩ := ih hl
    rw [List.splitOnP_cons_eq_if_modifyHead, hl] at hsplit
    by_cases hc : p c = true
    · obtain ⟨rfl, rfl⟩ : c :: h' = h ∧ tl' = tl := by simpa [hc] using hsplit
      have hback : (c :: collapse p sep false l).rdropWhile q =
          c :: h' ++ (tl'.filter fun w => !w.isEmpty).flatMap (sep :: ·) := by
        rw [rdropWhile_cons, hfalse, hletter c hc]
        split
        · next hnil => simp [hnil]
        · simp
      have hcons (inRun : Bool) : collapse p sep inRun (c :: l) = c :: collapse p sep false l := by
        simp [collapse, hc]
      rw [hcons, hcons, hback]
      refine ⟨?_, rfl⟩
      rw [List.filter_cons_of_pos (by simp), intercalate_cons]
    · obtain ⟨rfl, rfl⟩ : [] = h ∧ h' :: tl' = tl := by simpa [hc] using hsplit
      have hopen : collapse p sep true (c :: l) = collapse p sep true l := by simp [collapse, hc]
      have hclosed : collapse p sep false (c :: l) = sep :: collapse p sep true l := by
        simp [collapse, hc]
      refine ⟨by rw [hopen, htrue]; simp, ?_⟩
      rw [hclosed, rdropWhile_cons, htrue, hsep]
      cases hws : (h' :: tl').filter fun w => !w.isEmpty with
      | nil => simp
      | cons w ws =>
        have hw : w ≠ [] := by
          have hmem : w ∈ (h' :: tl').filter fun w => !w.isEmpty := by simp [hws]
          simpa using (List.mem_filter.mp hmem).2
        simp [intercalate_cons, hw]

/-- **Collapsing a text and dropping the separators at its ends gives its words**, joined. -/
theorem trim_collapse (hsep : q sep = true) (hletter : ∀ c, p c = true → q c = false)
    (l : List α) :
    ((collapse p sep false l).dropWhile q).rdropWhile q = [sep].intercalate (words p l) := by
  cases l with
  | nil => simp [collapse, words]
  | cons c l =>
    obtain ⟨h, tl, hl⟩ := List.exists_cons_of_ne_nil (List.splitOnP_ne_nil (fun c => !p c) l)
    have hsplit := List.splitOnP_cons_eq_if_modifyHead (p := fun c => !p c) c l
    unfold words
    by_cases hc : p c = true
    · have hparts : ((c :: l).splitOnP fun c => !p c) = (c :: h) :: tl := by
        simpa [hc, hl] using hsplit
      have hhead : (collapse p sep false (c :: l)).dropWhile q = collapse p sep false (c :: l) := by
        simp [collapse, hc, hletter c hc]
      rw [hhead, (rdropWhile_collapse hsep hletter hparts).2, hparts,
        List.filter_cons_of_pos (by simp), intercalate_cons]
    · have hhead : (collapse p sep false (c :: l)).dropWhile q = collapse p sep true l := by
        have hdrop : (collapse p sep true l).dropWhile q = collapse p sep true l := by
          cases hrun : collapse p sep true l with
          | nil => rfl
          | cons d t =>
            have hmem : d ∈ (collapse p sep true l).head? := by simp [hrun]
            simp [hletter d (head_collapse l d hmem)]
        simp [collapse, hc, hsep, hdrop]
      rw [hhead, (rdropWhile_collapse hsep hletter hl).1, hsplit, hl]
      simp [hc]

/-- The words of a text are no longer than the text. -/
theorem length_words [DecidableEq α] (hsep : p sep = false) (l : List α) :
    ([sep].intercalate (words p l)).length ≤ l.length := by
  have hletter : ∀ c, p c = true → decide (c = sep) = false := by
    intro c hc
    rw [decide_eq_false_iff_not]
    rintro rfl
    rw [hsep] at hc
    cases hc
  rw [← trim_collapse (q := fun c => decide (c = sep)) (by simp) hletter]
  exact (length_trim _ _).trans (length_collapse false l)

end Trim

/-- Collapsing goes through a word. -/
theorem collapse_word {w : List α} (hw : IsWord p w) (inRun : Bool) (t : List α) :
    collapse p sep inRun (w ++ t) = w ++ collapse p sep false t := by
  obtain ⟨hne, hletters⟩ := hw
  induction w generalizing inRun with
  | nil => exact absurd rfl hne
  | cons c w ih =>
    simp only [List.mem_cons, forall_eq_or_imp] at hletters
    by_cases hnil : w = []
    · simp [hnil, collapse, hletters.1]
    · simp [collapse, hletters.1, ih false hnil hletters.2]

/-- **A joined text collapses to itself**, also with a separator behind it. -/
theorem collapse_joined (hsep : p sep = false) {t : List α} (ht : Joined p sep t) (inRun : Bool) :
    collapse p sep inRun t = t ∧ collapse p sep inRun (t ++ [sep]) = t ++ [sep] := by
  refine ht.induction (P := fun t => ∀ inRun, collapse p sep inRun t = t ∧
    collapse p sep inRun (t ++ [sep]) = t ++ [sep]) ?_ ?_ inRun
  · intro w hw inRun
    have hword (t : List α) : collapse p sep inRun (w ++ t) = w ++ collapse p sep false t :=
      collapse_word hw inRun t
    constructor
    · simpa [collapse] using hword []
    · simpa [collapse, hsep] using hword [sep]
  · intro w t hw _ ih inRun
    obtain ⟨hsame, hbehind⟩ := ih true
    constructor
    · rw [collapse_word hw]
      simp [collapse, hsep, hsame]
    · rw [List.append_assoc, collapse_word hw]
      simp [collapse, hsep, hbehind]

end Words
