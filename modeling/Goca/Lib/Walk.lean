import Mathlib.Data.List.Chain
import Mathlib.Data.List.Nodup

/-!
# Walks along links

A link is a partial function: each node names at most one next node. `after` follows the links from
a node for a number of hops at most, as a loop with a hop limit does. `IsLine` says what is there
to be found, the whole line of nodes that follow: the walk is a front of it (`IsLine.after_eq`), and
it comes to the end of the line exactly when the line is no longer than the limit
(`IsLine.ended_iff`).

Two links that undo each other lead from one node in two directions. What both walks find, put
together, is the whole line on which the node lies when neither side is longer than the limit, and
the same from every node on the line exactly when the limit is as long as the line
(`IsLine.around_eq_iff`).
-/

set_option autoImplicit false

namespace Walk

variable {α : Type} {f g : α → Option α} {a b c : α} {l : List α}

/-- The nodes that follow a node, `n` at most. -/
def after (f : α → Option α) : Nat → α → List α
  | 0, _ => []
  | n + 1, a =>
    match f a with
    | none => []
    | some b => b :: after f n b

/-- The nodes that follow `a` are those of the list, up to one that has no next. -/
def IsLine (f : α → Option α) : α → List α → Prop
  | a, [] => f a = none
  | a, b :: l => f a = some b ∧ IsLine f b l

theorem after_succ_of_some (h : f a = some b) (n : Nat) : after f (n + 1) a = b :: after f n b := by
  rw [after, h]

theorem after_of_none (h : f a = none) (n : Nat) : after f n a = [] := by
  cases n with
  | zero => rfl
  | succ n => rw [after, h]

/-- A walk goes from link to link. -/
theorem chain_after {P : α → Prop} {R : α → α → Prop}
    (hf : ∀ a b, P a → f a = some b → P b ∧ R a b) (ha : P a) (n : Nat) :
    (a :: after f n a).IsChain R := by
  induction n generalizing a with
  | zero => exact .singleton a
  | succ n ih =>
    cases h : f a with
    | none =>
      rw [after_of_none h]
      exact .singleton a
    | some b =>
      obtain ⟨hb, hlink⟩ := hf a b ha h
      rw [after_succ_of_some h]
      exact .cons_cons hlink (ih hb)

/-- What every link leads into holds of a walk. -/
theorem forall_after {P : α → Prop} (hf : ∀ a b, P a → f a = some b → P b) (ha : P a) (n : Nat) :
    ∀ b ∈ after f n a, P b := by
  induction n generalizing a with
  | zero => exact fun b hb => absurd hb List.not_mem_nil
  | succ n ih =>
    cases h : f a with
    | none =>
      rw [after_of_none h]
      exact fun b hb => absurd hb List.not_mem_nil
    | some b =>
      rw [after_succ_of_some h]
      exact List.forall_mem_cons.mpr ⟨hf a b ha h, ih (hf a b ha h)⟩

/-! ## Lines -/

/-- Where every link leads down there is an end. -/
theorem exists_line {P : α → Prop} (hP : ∀ a b, P a → f a = some b → P b) (rank : α → Nat)
    (hf : ∀ a b, P a → f a = some b → rank b < rank a) (ha : P a) : ∃ l, IsLine f a l := by
  induction hn : rank a using Nat.strong_induction_on generalizing a with
  | _ n ih =>
    cases h : f a with
    | none => exact ⟨[], h⟩
    | some b =>
      obtain ⟨l, hl⟩ := ih (rank b) (hn ▸ hf a b ha h) (hP a b ha h) rfl
      exact ⟨b :: l, h, hl⟩

/-- A walk is a front of the line. -/
theorem IsLine.after_eq (h : IsLine f a l) (n : Nat) : after f n a = l.take n := by
  induction n generalizing a l with
  | zero => rw [List.take_zero, after]
  | succ n ih =>
    cases l with
    | nil => exact after_of_none h _
    | cons b l => rw [after_succ_of_some h.1, ih h.2, List.take_succ_cons]

/-- **A walk comes to the end of its line** exactly when the line is no longer than the limit. -/
theorem IsLine.ended_iff (h : IsLine f a l) (n : Nat) :
    (∀ b ∈ (a :: after f n a).getLast?, f b = none) ↔ l.length ≤ n := by
  induction n generalizing a l with
  | zero =>
    cases l with
    | nil => exact iff_of_true (by rintro b ⟨⟩; exact h) (Nat.le_refl 0)
    | cons b l =>
      refine iff_of_false (fun hend => ?_) (by simp)
      have hnone := hend a rfl
      rw [h.1] at hnone
      cases hnone
  | succ n ih =>
    cases l with
    | nil =>
      rw [after_of_none h]
      exact iff_of_true (by rintro b ⟨⟩; exact h) (Nat.zero_le _)
    | cons b l =>
      rw [after_succ_of_some h.1, List.getLast?_cons_cons, ih h.2, List.length_cons,
        Nat.succ_le_succ_iff]

/-! ## Both directions -/

/-- What two walks find around a node, each `n` hops at most: the first in reverse. -/
def around (g f : α → Option α) (n : Nat) (a : α) : List α :=
  (after g n a).reverse ++ a :: after f n a

/-- What is around a node is linked throughout. -/
theorem chain_around {P : α → Prop} {R : α → α → Prop}
    (hg : ∀ a b, P a → g a = some b → P b ∧ R b a) (hf : ∀ a b, P a → f a = some b → P b ∧ R a b)
    (ha : P a) (n : Nat) : (around g f n a).IsChain R := by
  refine List.isChain_split.mpr ⟨?_, chain_after hf ha n⟩
  rw [← List.reverse_cons, List.isChain_reverse]
  exact chain_after hg ha n

theorem forall_around {P : α → Prop} (hg : ∀ a b, P a → g a = some b → P b)
    (hf : ∀ a b, P a → f a = some b → P b) (ha : P a) (n : Nat) : ∀ b ∈ around g f n a, P b := by
  intro b hb
  rcases List.mem_append.mp hb with hback | hahead
  · exact forall_after hg ha n b (List.mem_reverse.mp hback)
  · rcases List.mem_cons.mp hahead with rfl | hahead
    · exact ha
    · exact forall_after hf ha n b hahead

theorem mem_around (g f : α → Option α) (n : Nat) (a : α) : a ∈ around g f n a :=
  List.mem_append.mpr (.inr List.mem_cons_self)

/-- The whole lines around a node. -/
structure Lines (g f : α → Option α) (back : List α) (a : α) (ahead : List α) : Prop where
  back : IsLine g a back
  ahead : IsLine f a ahead

variable {back ahead : List α}

theorem Lines.around_eq (h : Lines g f back a ahead) (n : Nat) :
    around g f n a = (back.take n).reverse ++ a :: ahead.take n := by
  unfold around
  rw [h.back.after_eq, h.ahead.after_eq]

/-- What is around a node begins with the end of one line exactly when that line is no longer than
the limit. -/
theorem Lines.begun_iff (h : Lines g f back a ahead) (n : Nat) :
    (∀ b ∈ (around g f n a).head?, g b = none) ↔ back.length ≤ n := by
  rw [← h.back.ended_iff n, ← List.head?_reverse, List.reverse_cons]
  unfold around
  rw [List.head?_append, List.head?_append]
  rfl

/-- It ends with the end of the other line exactly when that one is no longer than the limit. -/
theorem Lines.ended_iff (h : Lines g f back a ahead) (n : Nat) :
    (∀ b ∈ (around g f n a).getLast?, f b = none) ↔ ahead.length ≤ n := by
  rw [← h.ahead.ended_iff n]
  unfold around
  rw [List.getLast?_append_of_ne_nil _ (List.cons_ne_nil _ _)]

/-- Neither side is longer than the limit exactly when both walks together are as long as the
line. -/
theorem Lines.around_eq_whole_iff (h : Lines g f back a ahead) (n : Nat) :
    around g f n a = back.reverse ++ a :: ahead ↔ back.length ≤ n ∧ ahead.length ≤ n := by
  rw [h.around_eq]
  constructor
  · intro heq
    have hlength := congrArg List.length heq
    simp only [List.length_append, List.length_reverse, List.length_cons, List.length_take]
      at hlength
    omega
  · rintro ⟨hback, hahead⟩
    rw [List.take_of_length_le hback, List.take_of_length_le hahead]

section Inverse

variable {P : α → Prop} (hg : ∀ a b, P a → g a = some b → P b ∧ f b = some a)
  (hf : ∀ a b, P a → f a = some b → P b ∧ g b = some a)

include hg hf

/-- From every node of a line the same line is seen, divided elsewhere. -/
theorem Lines.exists_of_mem (h : Lines g f back a ahead) (ha : P a)
    (hb : b ∈ back.reverse ++ a :: ahead) : ∃ back' ahead', Lines g f back' b ahead' ∧
      back'.reverse ++ b :: ahead' = back.reverse ++ a :: ahead := by
  rcases List.mem_append.mp hb with hmem | hmem
  · rw [List.mem_reverse] at hmem
    clear hb
    induction back generalizing a ahead with
    | nil => cases hmem
    | cons d back ih =>
      obtain ⟨hd, hlink⟩ := hg a d ha h.back.1
      have hlines : Lines g f back d (a :: ahead) := ⟨h.back.2, hlink, h.ahead⟩
      have hlist : back.reverse ++ d :: a :: ahead = (d :: back).reverse ++ a :: ahead := by
        rw [List.reverse_cons, List.append_assoc]
        rfl
      rw [← hlist]
      rcases List.mem_cons.mp hmem with rfl | hmem
      · exact ⟨back, a :: ahead, hlines, rfl⟩
      · exact ih hlines hd hmem
  · clear hb
    induction ahead generalizing a back with
    | nil =>
      rw [List.mem_singleton.mp hmem]
      exact ⟨back, [], h, rfl⟩
    | cons d ahead ih =>
      rcases List.mem_cons.mp hmem with rfl | hmem
      · exact ⟨back, d :: ahead, h, rfl⟩
      · obtain ⟨hd, hlink⟩ := hf a d ha h.ahead.1
        have hlines : Lines g f (a :: back) d ahead := ⟨⟨hlink, h.back⟩, h.ahead.2⟩
        have hlist : (a :: back).reverse ++ d :: ahead = back.reverse ++ a :: d :: ahead := by
          rw [List.reverse_cons, List.append_assoc]
          rfl
        rw [← hlist]
        exact ih hlines hd hmem

/-- **The same from everywhere**: where both sides of a node are within the limit, every node of its
line has the same around it exactly when the limit is as long as the line. -/
theorem Lines.around_same_iff (h : Lines g f back a ahead) (ha : P a) {n : Nat}
    (hback : back.length ≤ n) (hahead : ahead.length ≤ n) :
    (∀ b ∈ around g f n a, around g f n b = around g f n a) ↔ back.length + ahead.length ≤ n := by
  have hwhole := (h.around_eq_whole_iff n).mpr ⟨hback, hahead⟩
  rw [hwhole]
  constructor
  · intro hsame
    -- The last node of the line has all the others behind it.
    have hlast : (a :: ahead).getLast (List.cons_ne_nil a ahead) ∈ back.reverse ++ a :: ahead :=
      List.mem_append.mpr (.inr (List.getLast_mem _))
    obtain ⟨back', ahead', hlines, hlist⟩ := h.exists_of_mem hg hf ha hlast
    have hend : f ((a :: ahead).getLast (List.cons_ne_nil a ahead)) = none := by
      have hline := (h.ahead.ended_iff ahead.length).mpr (Nat.le_refl _)
      rw [h.ahead.after_eq, List.take_length] at hline
      exact hline _ (List.getLast?_eq_some_getLast _)
    have hnil : ahead' = [] := by
      cases ahead' with
      | nil => rfl
      | cons d l =>
        have hlink := hlines.ahead.1
        rw [hend] at hlink
        cases hlink
    have hseen := hsame _ hlast
    rw [← hlist] at hseen
    have hle := ((hlines.around_eq_whole_iff n).mp hseen).1
    have hlength := congrArg List.length hlist
    rw [hnil] at hlength
    simp only [List.length_append, List.length_reverse, List.length_cons, List.length_nil]
      at hlength
    omega
  · intro hle b hb
    obtain ⟨back', ahead', hlines, hlist⟩ := h.exists_of_mem hg hf ha hb
    rw [← hlist]
    refine (hlines.around_eq_whole_iff n).mpr ?_
    have hlength := congrArg List.length hlist
    simp only [List.length_append, List.length_reverse, List.length_cons] at hlength
    omega

end Inverse

end Walk
