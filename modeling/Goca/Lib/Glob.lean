import Mathlib.Data.List.Infix

/-!
# Glob patterns over any alphabet

A pattern is a list of blocks. A block states one condition for each symbol it takes; a star before
it lets it match later in the word. `Matches` is the language of a pattern, `find` the search that
never goes back: it gives each block the first place that fits. Because every block after the first
stands behind a star, the first place is as good as any later one (`find_iff_matches`). The same
argument says what a pattern that matches `x :: z` makes of the words that put something else in
the place of `x` (`matches_replaced_iff`).
-/

set_option autoImplicit false

namespace Glob

variable {α : Type}

/-- A block: the condition on each symbol it takes, in order. -/
abbrev Block (α : Type) := List (α → Bool)

/-- A pattern: its blocks, each with whether a star stands before it. -/
abbrev Pattern (α : Type) := List (Bool × Block α)

/-- Match a block at the start of a word: what is left of the word. -/
def strip : Block α → List α → Option (List α)
  | [], s => some s
  | _ :: _, [] => none
  | p :: b, c :: s => if p c then strip b s else none

/-- **A block takes as many symbols as it has conditions**, whatever they are. -/
theorem strip_eq_some {b : Block α} {s t : List α} (h : strip b s = some t) :
    b.length ≤ s.length ∧ t = s.drop b.length := by
  induction b generalizing s with
  | nil =>
    simp only [strip, Option.some.injEq] at h
    simp [h]
  | cons p b ih =>
    cases s with
    | nil => simp [strip] at h
    | cons c s =>
      simp only [strip] at h
      by_cases hp : p c = true
      · rw [if_pos hp] at h
        have := ih h
        simp [this.1, this.2]
      · rw [if_neg hp] at h
        cases h

/-! ## The language of a pattern -/

/-- The words a pattern matches: each block where it stands, or later behind its star. -/
inductive Matches : Pattern α → List α → Prop
  | nil : Matches [] []
  | here {star : Bool} {b : Block α} {rest : Pattern α} {s t : List α} :
      strip b s = some t → Matches rest t → Matches ((star, b) :: rest) s
  | skip {b : Block α} {rest : Pattern α} {c : α} {s : List α} :
      Matches ((true, b) :: rest) s → Matches ((true, b) :: rest) (c :: s)

/-- A star absorbs anything before a word that matches. -/
theorem Matches.prepend {b : Block α} {rest : Pattern α} {s : List α}
    (h : Matches ((true, b) :: rest) s) (w : List α) : Matches ((true, b) :: rest) (w ++ s) := by
  induction w with
  | nil => exact h
  | cons c w ih => exact .skip ih

/-- **Where the first block of a match stands**: at the start, or further on behind a star. -/
theorem matches_cons_iff {star : Bool} {b : Block α} {rest : Pattern α} {s : List α} :
    Matches ((star, b) :: rest) s ↔
      ∃ u v t, s = u ++ v ∧ (star = false → u = []) ∧ strip b v = some t ∧ Matches rest t := by
  constructor
  · intro h
    generalize hp : (star, b) :: rest = p at h
    induction h with
    | nil => cases hp
    | here hs hr =>
      cases hp
      exact ⟨[], _, _, rfl, fun _ => rfl, hs, hr⟩
    | skip _ ih =>
      cases hp
      obtain ⟨u, v, t, rfl, -, hs, hr⟩ := ih rfl
      exact ⟨_ :: u, v, t, rfl, fun hstar => Bool.noConfusion hstar, hs, hr⟩
  · rintro ⟨u, v, t, rfl, hu, hs, hr⟩
    cases star with
    | false =>
      rw [hu rfl]
      exact .here hs hr
    | true => exact (Matches.here hs hr).prepend u

/-- Every block of a pattern stands behind a star. -/
def Starred (p : Pattern α) : Prop := ∀ e ∈ p, e.1 = true

/-- A pattern that begins with a star, or is empty and leaves nothing, also matches a longer word
with the same end. -/
theorem Matches.longer {p : Pattern α} (hp : Starred p) (hne : p ≠ []) {s : List α}
    (h : Matches p s) (w : List α) : Matches p (w ++ s) := by
  cases p with
  | nil => exact absurd rfl hne
  | cons e p =>
    obtain ⟨star, b⟩ := e
    have hstar : star = true := hp _ (List.mem_cons_self ..)
    subst hstar
    exact h.prepend w

/-! ## The search that never goes back -/

/-- The places a block may stand: the start, or with a star every suffix, nearest first. -/
def places (star : Bool) (s : List α) : List (List α) := if star then s.tails else [s]

/-- The first place where a block fits, and what is left; the last block must leave nothing. -/
def firstFit (b : Block α) (last : Bool) (ss : List (List α)) : Option (List α) :=
  ss.findSome? fun s => (strip b s).filter fun t => !last || t.isEmpty

/-- The search: each block at the first place where it fits. -/
def find : Pattern α → List α → Bool
  | [], s => s.isEmpty
  | (star, b) :: rest, s =>
    match firstFit b rest.isEmpty (places star s) with
    | some t => find rest t
    | none => false

/-- The places of a block are suffixes, and the start is the only one without a star. -/
theorem mem_places {star : Bool} {s v : List α} :
    v ∈ places star s ↔ ∃ u, s = u ++ v ∧ (star = false → u = []) := by
  cases star with
  | false =>
    simp only [places, Bool.false_eq_true, if_false, List.mem_singleton]
    constructor
    · rintro rfl
      exact ⟨[], rfl, fun _ => rfl⟩
    · rintro ⟨u, rfl, hu⟩
      simp [hu]
  | true =>
    simp only [places, if_true, List.mem_tails]
    constructor
    · rintro ⟨u, rfl⟩
      exact ⟨u, rfl, fun h => Bool.noConfusion h⟩
    · rintro ⟨u, rfl, -⟩
      exact ⟨u, rfl⟩

/-- A block stands at the first place that fits: no place before it does. -/
theorem firstFit_eq_some {b : Block α} {last : Bool} {ss : List (List α)} {t : List α}
    (h : firstFit b last ss = some t) :
    ∃ before s after, ss = before ++ s :: after ∧ strip b s = some t ∧ (last = true → t = []) ∧
      ∀ r ∈ before, ∀ t', strip b r = some t' → last = true ∧ t' ≠ [] := by
  obtain ⟨before, s, after, rfl, hs, hbefore⟩ := List.findSome?_eq_some_iff.mp h
  rw [Option.filter_eq_some_iff] at hs
  refine ⟨before, s, after, rfl, hs.1, ?_, ?_⟩
  · intro hlast
    simpa [hlast] using hs.2
  · intro r hr t' ht'
    have hnone := hbefore r hr
    rw [ht'] at hnone
    by_cases hlast : last = true
    · exact ⟨hlast, by intro ht; simp [hlast, ht] at hnone⟩
    · simp [hlast] at hnone

/-- What a block leaves of a word is the end of what it leaves of a longer one. -/
theorem strip_longer {b : Block α} {s t w t' : List α} (hs : strip b s = some t)
    (hs' : strip b (w ++ s) = some t') : ∃ w', t' = w' ++ t := by
  obtain ⟨hlen, rfl⟩ := strip_eq_some hs
  obtain ⟨-, rfl⟩ := strip_eq_some hs'
  have hshort : s.drop b.length <:+ w ++ s := (List.drop_suffix ..).trans (List.suffix_append ..)
  have hle : (s.drop b.length).length ≤ ((w ++ s).drop b.length).length := by
    simp only [List.length_drop, List.length_append]
    omega
  obtain ⟨w', hw'⟩ := List.suffix_of_suffix_length_le hshort (List.drop_suffix ..) hle
  exact ⟨w', hw'.symm⟩

/-- In the list of suffixes, those further on are ends of those before. -/
theorem tails_pairwise (s : List α) : s.tails.Pairwise fun x y => y <:+ x := by
  induction s with
  | nil => simp
  | cons c s ih =>
    rw [List.tails_cons, List.pairwise_cons]
    refine ⟨?_, ih⟩
    intro y hy
    exact ((List.mem_tails ..).mp hy).trans (List.suffix_cons c s)

/-- Of two places of a block, the later is the end of the earlier. -/
theorem places_pairwise (star : Bool) (s : List α) :
    (places star s).Pairwise fun x y => y <:+ x := by
  cases star with
  | false => simp [places]
  | true => exact tails_pairwise s

/-- What a search leaves to the blocks behind their stars may only grow. -/
theorem Matches.of_longer {rest : Pattern α} (hrest : Starred rest) {t t' w : List α}
    (h : Matches rest t) (hlast : rest.isEmpty = true → t' = []) (ht' : t' = w ++ t) :
    Matches rest t' := by
  cases rest with
  | nil =>
    rw [hlast rfl]
    exact .nil
  | cons e rest =>
    rw [ht']
    exact h.longer hrest (List.cons_ne_nil e rest) w

/-- **The search is complete**: a pattern whose blocks after the first stand behind stars matches a
word exactly when giving each block its first place succeeds. -/
theorem find_iff_matches {p : Pattern α} (hp : Starred p.tail) (s : List α) :
    find p s = true ↔ Matches p s := by
  induction p generalizing s with
  | nil =>
    cases s with
    | nil => exact ⟨fun _ => .nil, fun _ => rfl⟩
    | cons c s => exact ⟨fun h => Bool.noConfusion h, fun h => nomatch h⟩
  | cons e rest ih =>
    obtain ⟨star, b⟩ := e
    have hrest : Starred rest := hp
    have htail : Starred rest.tail := fun e he => hrest e (List.mem_of_mem_tail he)
    rw [matches_cons_iff]
    constructor
    · intro h
      simp only [find] at h
      split at h
      next t ht =>
        obtain ⟨before, v, after, hss, hv, -, -⟩ := firstFit_eq_some ht
        have hmem : v ∈ places star s := by simp [hss]
        obtain ⟨u, hu, hstar⟩ := mem_places.mp hmem
        exact ⟨u, v, t, hu, hstar, hv, (ih htail t).mp h⟩
      next => cases h
    · rintro ⟨u, v, t, hs, hstar, hv, hr⟩
      have hmem : v ∈ places star s := mem_places.mpr ⟨u, hs, hstar⟩
      have hfit : rest.isEmpty = true → t = [] := by
        intro hnil
        rw [List.isEmpty_iff] at hnil
        subst hnil
        cases hr
        rfl
      simp only [find]
      cases hff : firstFit b rest.isEmpty (places star s) with
      | none =>
        rw [firstFit, List.findSome?_eq_none_iff] at hff
        have hnone := hff v hmem
        rw [hv, Option.filter_eq_none_iff] at hnone
        have := hnone t rfl
        by_cases hlast : rest.isEmpty = true
        · simp [hfit hlast] at this
        · simp [hlast] at this
      | some t₁ =>
        obtain ⟨before, v₁, after, hss, hv₁, hlast, hbefore⟩ := firstFit_eq_some hff
        rw [ih htail]
        rw [hss, List.mem_append, List.mem_cons] at hmem
        rcases hmem with hmem | rfl | hmem
        · obtain ⟨hl, ht⟩ := hbefore v hmem t hv
          exact absurd (hfit hl) ht
        · rw [hv, Option.some.injEq] at hv₁
          rw [← hv₁]
          exact hr
        · have hsuffix := places_pairwise star s
          rw [hss, List.pairwise_append, List.pairwise_cons] at hsuffix
          obtain ⟨w, rfl⟩ := hsuffix.2.1.1 v hmem
          obtain ⟨w', hw'⟩ := strip_longer hv hv₁
          exact hr.of_longer hrest hlast hw'

/-! ## Putting a word in the place of a symbol -/

/-- **What may stand for one symbol**: a pattern that matches `x :: z` matches `l ++ z` exactly
when a star before its first block stands for `x`, or its first block fits somewhere inside `l`
(at its start, without a star) and, as the only block, to the end. -/
theorem matches_replaced_iff {star : Bool} {b : Block α} {rest : Pattern α} {x : α}
    {l z : List α} (hrest : Starred rest) (hb : b = [] → rest = []) (hl : l ≠ [])
    (h : Matches ((star, b) :: rest) (x :: z)) :
    Matches ((star, b) :: rest) (l ++ z) ↔
      (star = true ∧ Matches ((star, b) :: rest) z) ∨
        ∃ u v t, l = u ++ v ∧ v ≠ [] ∧ (star = false → u = []) ∧ strip b (v ++ z) = some t ∧
          (rest.isEmpty = true → t = []) := by
  constructor
  · intro hm
    obtain ⟨u, v, t, hs, hstar, hv, hr⟩ := matches_cons_iff.mp hm
    rcases List.append_eq_append_iff.mp hs with ⟨a, rfl, rfl⟩ | ⟨a, rfl, hz⟩
    · left
      cases star with
      | false => simp_all
      | true => exact ⟨rfl, (Matches.here hv hr).prepend a⟩
    · by_cases ha : a = []
      · subst ha
        rw [List.nil_append] at hz
        subst hz
        rw [List.append_nil] at hl
        left
        cases star with
        | false => exact absurd (hstar rfl) hl
        | true => exact ⟨rfl, .here hv hr⟩
      · right
        subst hz
        refine ⟨u, a, t, rfl, ha, hstar, hv, ?_⟩
        intro hnil
        rw [List.isEmpty_iff] at hnil
        subst hnil
        cases hr
        rfl
  · rintro (⟨hstar, hm⟩ | ⟨u, v, t, rfl, hne, hstar, hv, hlast⟩)
    · subst hstar
      exact hm.prepend l
    · obtain ⟨u₀, v₀, t₀, hs₀, hstar₀, hv₀, hr₀⟩ := matches_cons_iff.mp h
      cases u₀ with
      | cons c u₀ =>
        -- the star stands for `x`, so the rest of the match is about `z`
        rw [List.cons_append, List.cons.injEq] at hs₀
        cases star with
        | false => simp at hstar₀
        | true =>
          rw [hs₀.2]
          exact ((Matches.here hv₀ hr₀).prepend u₀).prepend (u ++ v)
      | nil =>
        rw [List.nil_append] at hs₀
        subst hs₀
        have ht : Matches rest t := by
          cases rest with
          | nil =>
            rw [hlast rfl]
            exact .nil
          | cons e rest =>
            have hpos : 0 < b.length := by
              rw [List.length_pos_iff]
              intro hnil
              exact List.cons_ne_nil _ _ (hb hnil)
            have hvpos : 0 < v.length := List.length_pos_iff.mpr hne
            obtain ⟨hlen₀, rfl⟩ := strip_eq_some hv₀
            obtain ⟨hlen, rfl⟩ := strip_eq_some hv
            -- both ends are ends of `z`, and the one after `v` is not the shorter
            obtain ⟨n, hn⟩ : ∃ n, b.length = n + 1 := ⟨b.length - 1, by omega⟩
            have hshort : (x :: z).drop b.length <:+ v ++ z := by
              rw [hn, List.drop_succ_cons]
              exact (List.drop_suffix ..).trans (List.suffix_append ..)
            have hle : ((x :: z).drop b.length).length ≤ ((v ++ z).drop b.length).length := by
              simp only [List.length_drop, List.length_append, List.length_cons]
              omega
            obtain ⟨w, hw⟩ := List.suffix_of_suffix_length_le hshort (List.drop_suffix ..) hle
            rw [← hw]
            exact hr₀.longer hrest (List.cons_ne_nil e rest) w
        rw [List.append_assoc]
        cases star with
        | false =>
          rw [hstar rfl]
          exact .here hv ht
        | true => exact (Matches.here hv ht).prepend u

/-! ## Patterns of one condition -/

/-- The conditions of a pattern, in order. -/
def conditions (p : Pattern α) : Block α := p.flatMap (·.2)

/-- **A word is as long as the conditions** of a pattern that matches it, or longer. -/
theorem Matches.length_le {p : Pattern α} {s : List α} (h : Matches p s) :
    (conditions p).length ≤ s.length := by
  induction h with
  | nil => exact Nat.le_refl 0
  | @here star b rest s t hs _ ih =>
    obtain ⟨hlen, rfl⟩ := strip_eq_some hs
    rw [List.length_drop] at ih
    change (b ++ conditions rest).length ≤ s.length
    rw [List.length_append]
    omega
  | skip _ ih =>
    rw [List.length_cons]
    exact Nat.le_succ_of_le ih

/-- A star alone matches everything. -/
theorem matches_star (s : List α) : Matches [(true, [])] s := by
  have h : Matches [(true, ([] : Block α))] (s ++ []) := (Matches.here rfl .nil).prepend s
  rwa [List.append_nil] at h

theorem strip_singleton {f : α → Bool} {s t : List α} :
    strip [f] s = some t ↔ ∃ c, s = c :: t ∧ f c = true := by
  cases s with
  | nil => exact ⟨fun h => (nomatch h), fun ⟨c, h, _⟩ => (nomatch h)⟩
  | cons c s =>
    simp only [strip, Option.ite_none_right_eq_some, Option.some.injEq, List.cons.injEq]
    constructor
    · rintro ⟨hf, rfl⟩
      exact ⟨c, ⟨rfl, rfl⟩, hf⟩
    · rintro ⟨d, ⟨rfl, rfl⟩, hf⟩
      exact ⟨hf, rfl⟩

/-- One condition matches one symbol. -/
theorem matches_one_iff {f : α → Bool} {s : List α} :
    Matches [(false, [f])] s ↔ ∃ c, s = [c] ∧ f c = true := by
  rw [matches_cons_iff]
  constructor
  · rintro ⟨u, v, t, rfl, hu, hs, hr⟩
    obtain ⟨c, rfl, hc⟩ := strip_singleton.mp hs
    cases hr
    exact ⟨c, by rw [hu rfl, List.nil_append], hc⟩
  · rintro ⟨c, rfl, hc⟩
    exact ⟨[], [c], [], rfl, fun _ => rfl, strip_singleton.mpr ⟨c, rfl, hc⟩, .nil⟩

/-- One condition behind a star is about the last symbol. -/
theorem matches_last_iff {f : α → Bool} {s : List α} :
    Matches [(true, [f])] s ↔ ∃ c, s.getLast? = some c ∧ f c = true := by
  rw [matches_cons_iff]
  constructor
  · rintro ⟨u, v, t, rfl, -, hs, hr⟩
    obtain ⟨c, rfl, hc⟩ := strip_singleton.mp hs
    cases hr
    exact ⟨c, List.getLast?_concat, hc⟩
  · rintro ⟨c, hlast, hc⟩
    obtain ⟨u, rfl⟩ := List.getLast?_eq_some_iff.mp hlast
    exact ⟨u, [c], [], rfl, fun h => (nomatch h), strip_singleton.mpr ⟨c, rfl, hc⟩, .nil⟩

/-- One condition before a star is about the first symbol. -/
theorem matches_first_iff {f : α → Bool} {s : List α} :
    Matches [(false, [f]), (true, [])] s ↔ ∃ c, s.head? = some c ∧ f c = true := by
  rw [matches_cons_iff]
  constructor
  · rintro ⟨u, v, t, rfl, hu, hs, -⟩
    obtain ⟨c, rfl, hc⟩ := strip_singleton.mp hs
    exact ⟨c, by rw [hu rfl]; rfl, hc⟩
  · rintro ⟨c, hhead, hc⟩
    obtain ⟨t, rfl⟩ := List.head?_eq_some_iff.mp hhead
    exact ⟨[], _, t, rfl, fun _ => rfl, strip_singleton.mpr ⟨c, rfl, hc⟩, matches_star t⟩

/-- One condition between stars is about some symbol. -/
theorem matches_mem_iff {f : α → Bool} {s : List α} :
    Matches [(true, [f]), (true, [])] s ↔ ∃ c ∈ s, f c = true := by
  rw [matches_cons_iff]
  constructor
  · rintro ⟨u, v, t, rfl, -, hs, -⟩
    obtain ⟨c, rfl, hc⟩ := strip_singleton.mp hs
    exact ⟨c, List.mem_append_right u List.mem_cons_self, hc⟩
  · rintro ⟨c, hmem, hc⟩
    obtain ⟨u, t, rfl⟩ := List.mem_iff_append.mp hmem
    exact ⟨u, _, t, rfl, fun h => (nomatch h), strip_singleton.mpr ⟨c, rfl, hc⟩, matches_star t⟩

/-- A pattern in which only a last block behind a star is empty. -/
def Tidy (p : Pattern α) : Prop :=
  ∀ before b after, p = before ++ b :: after → b.2 = [] → b.1 = true ∧ after = []

/-- **The patterns of one condition at most**: nothing, a star, or one condition with a star before
it, after it, on both sides or on none. -/
theorem shape_of_conditions {p : Pattern α} (hp : Tidy p) (hstar : Starred p.tail)
    (h : (conditions p).length ≤ 1) : p = [] ∨ p = [(true, [])] ∨
      ∃ star f, p = [(star, [f])] ∨ p = [(star, [f]), (true, [])] := by
  match p, hp, hstar, h with
  | [], _, _, _ => exact .inl rfl
  | (star, []) :: rest, hp, _, _ =>
    obtain ⟨rfl, rfl⟩ := hp [] _ rest rfl rfl
    exact .inr (.inl rfl)
  | [(star, [f])], _, _, _ => exact .inr (.inr ⟨star, f, .inl rfl⟩)
  | (star, [f]) :: (star', []) :: rest, hp, _, _ =>
    obtain ⟨rfl, rfl⟩ := hp [_] _ rest rfl rfl
    exact .inr (.inr ⟨star, f, .inr rfl⟩)
  | (star, [f]) :: (star', g :: b) :: rest, _, _, h =>
    simp [conditions] at h
  | (star, f :: g :: b) :: rest, _, _, h =>
    simp [conditions] at h

end Glob
