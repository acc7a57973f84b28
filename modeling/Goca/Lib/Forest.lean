import Mathlib.Data.List.Nodup
import Mathlib.Data.List.Perm.Subperm
import Mathlib.Logic.Function.Basic

/-!
# Forests of parent links

A set of nodes where each names at most one parent, as rows of a table do with a foreign key into
their own table. `climb` follows the links, and `Acyclic` says that it never comes back. Links are
only ever set one at a time, so one lemma, `Acyclic.update`, is enough to keep a forest a forest:
the new parent must not be beneath the node.

`descend` is the other direction: a node and everything beneath it, each child's descent after the
other, as a recursion without a set of visited nodes makes it. In a forest it meets every node
beneath once (`nodup_descend`, `mem_descend`), and it goes no deeper than there are nodes
(`within_of_acyclic`).
-/

set_option autoImplicit false

namespace Forest

variable {α : Type}

/-! ## Climbing -/

/-- Follow `k` parent links. -/
def climb (up : α → Option α) : Nat → α → Option α
  | 0, i => some i
  | k + 1, i => (up i).bind (climb up k)

/-- No node is above itself. -/
def Acyclic (up : α → Option α) : Prop := ∀ i k, climb up (k + 1) i ≠ some i

/-- The node `j` is `i`, or beneath it. -/
def Beneath (up : α → Option α) (j i : α) : Prop := ∃ k, climb up k j = some i

variable {up : α → Option α}

theorem climb_zero (i : α) : climb up 0 i = some i := rfl

theorem climb_succ_of_up {i p : α} (h : up i = some p) (k : Nat) :
    climb up (k + 1) i = climb up k p := by
  rw [climb, h, Option.bind_some]

theorem climb_succ_eq_some {i j : α} {k : Nat} :
    climb up (k + 1) i = some j ↔ ∃ p, up i = some p ∧ climb up k p = some j :=
  Option.bind_eq_some_iff

/-- Climbing twice is climbing the sum. -/
theorem climb_add {i j : α} {m : Nat} (h : climb up m i = some j) (n : Nat) :
    climb up (m + n) i = climb up n j := by
  induction m generalizing i with
  | zero =>
    rw [Nat.zero_add]
    cases h
    rfl
  | succ m ih =>
    obtain ⟨p, hp, hclimb⟩ := climb_succ_eq_some.mp h
    rw [Nat.succ_add, climb_succ_of_up hp, ih hclimb]

theorem climb_snoc {i j p : α} {k : Nat} (h : climb up k i = some j) (hp : up j = some p) :
    climb up (k + 1) i = some p := by
  rw [climb_add h, climb_succ_of_up hp, climb_zero]

/-- The last link of a climb. -/
theorem climb_succ_last {i j : α} {k : Nat} (h : climb up (k + 1) i = some j) :
    ∃ c, climb up k i = some c ∧ up c = some j := by
  induction k generalizing i with
  | zero =>
    obtain ⟨p, hp, hj⟩ := climb_succ_eq_some.mp h
    cases hj
    exact ⟨i, rfl, hp⟩
  | succ k ih =>
    obtain ⟨p, hp, hclimb⟩ := climb_succ_eq_some.mp h
    obtain ⟨c, hc, hlast⟩ := ih hclimb
    exact ⟨c, (climb_succ_of_up hp k).trans hc, hlast⟩

theorem Beneath.refl (i : α) : Beneath up i i := ⟨0, rfl⟩

theorem Beneath.step {j c i : α} (h : Beneath up j c) (hc : up c = some i) : Beneath up j i := by
  obtain ⟨k, hk⟩ := h
  exact ⟨k + 1, climb_snoc hk hc⟩

/-- What holds of a node and is passed from a node to its parent holds of everything above. -/
theorem Beneath.induction {P : α → Prop} {j i : α} (h : Beneath up j i) (hj : P j)
    (step : ∀ c p, up c = some p → P c → P p) : P i := by
  obtain ⟨k, hk⟩ := h
  induction k generalizing j with
  | zero =>
    cases hk
    exact hj
  | succ k ih =>
    obtain ⟨p, hp, hclimb⟩ := climb_succ_eq_some.mp hk
    exact ih (step j p hp hj) hclimb

/-- Two nodes above one node are above one another. -/
theorem Beneath.linear {j a b : α} (ha : Beneath up j a) (hb : Beneath up j b) :
    Beneath up a b ∨ Beneath up b a := by
  obtain ⟨m, hm⟩ := ha
  obtain ⟨n, hn⟩ := hb
  rcases Nat.le_total m n with hle | hle
  · refine .inl ⟨n - m, ?_⟩
    rw [← climb_add hm, Nat.add_sub_cancel' hle]
    exact hn
  · refine .inr ⟨m - n, ?_⟩
    rw [← climb_add hn, Nat.add_sub_cancel' hle]
    exact hm

/-! ## Setting one link -/

section Update

variable [DecidableEq α] {r : α} {q : Option α}

/-- A climb that ends in the node whose link is set does not need that link. -/
theorem beneath_of_update {i : α} (h : Beneath (Function.update up r q) i r) : Beneath up i r := by
  obtain ⟨k, hk⟩ := h
  induction k generalizing i with
  | zero =>
    cases hk
    exact .refl r
  | succ k ih =>
    by_cases hi : i = r
    · rw [hi]
      exact .refl r
    · obtain ⟨p, hp, hclimb⟩ := climb_succ_eq_some.mp hk
      rw [Function.update_of_ne hi] at hp
      obtain ⟨n, hn⟩ := ih hclimb
      exact ⟨n + 1, (climb_succ_of_up hp n).trans hn⟩

/-- A climb after a link is set is a climb before, or meets the node whose link is set. -/
theorem climb_update {i j : α} {k : Nat} (h : climb (Function.update up r q) k i = some j) :
    climb up k i = some j ∨ Beneath (Function.update up r q) i r := by
  induction k generalizing i with
  | zero => exact .inl h
  | succ k ih =>
    by_cases hi : i = r
    · rw [hi]
      exact .inr (.refl r)
    · obtain ⟨p, hp, hclimb⟩ := climb_succ_eq_some.mp h
      rcases ih hclimb with hold | ⟨n, hn⟩
      · rw [Function.update_of_ne hi] at hp
        exact .inl ((climb_succ_of_up hp k).trans hold)
      · exact .inr ⟨n + 1, (climb_succ_of_up hp n).trans hn⟩

/-- **Setting one link** keeps a forest a forest, where the new parent is not beneath the node. -/
theorem Acyclic.update (h : Acyclic up) (hq : ∀ p, q = some p → ¬ Beneath up p r) :
    Acyclic (Function.update up r q) := by
  intro i k hcycle
  rcases climb_update hcycle with hold | ⟨m, hm⟩
  · exact h i k hold
  · -- the cycle meets the node, so it can be entered there
    have hr : climb (Function.update up r q) (k + 1) r = some r := by
      rw [← climb_add hm, Nat.add_comm, climb_add hcycle]
      exact hm
    obtain ⟨p, hp, hclimb⟩ := climb_succ_eq_some.mp hr
    rw [Function.update_self] at hp
    exact hq p hp (beneath_of_update ⟨k, hclimb⟩)

end Update

/-! ## Descending -/

/-- A node, and the nodes beneath it down to the given level, each child's after the other's. -/
def descend (below : α → List α) : Nat → α → List α
  | 0, _ => []
  | n + 1, i => i :: (below i).flatMap (descend below n)

/-- A list of children for every node. -/
structure Children (up : α → Option α) (below : α → List α) : Prop where
  mem : ∀ i j, j ∈ below i ↔ up j = some i
  nodup : ∀ i, (below i).Nodup

/-- Everything beneath a node is less than so many levels beneath it. -/
def Within (up : α → Option α) (n : Nat) (i : α) : Prop := ∀ j k, climb up k j = some i → k < n

/-- The children of a node have one level less. -/
theorem Within.child {n : Nat} {i c : α} (h : Within up (n + 1) i) (hc : up c = some i) :
    Within up n c := by
  intro j k hk
  have := h j (k + 1) (climb_snoc hk hc)
  omega

variable {below : α → List α}

/-- What a descent meets is beneath its start. -/
theorem beneath_of_mem_descend (hb : Children up below) {n : Nat} {i j : α}
    (h : j ∈ descend below n i) : Beneath up j i := by
  induction n generalizing i with
  | zero => cases h
  | succ n ih =>
    rcases List.mem_cons.mp h with rfl | h
    · exact .refl j
    · obtain ⟨c, hc, hj⟩ := List.mem_flatMap.mp h
      exact (ih hj).step ((hb.mem i c).mp hc)

/-- **A descent meets everything beneath its start**, given the levels for it. -/
theorem mem_descend (hb : Children up below) {n : Nat} {i j : α} (hn : Within up n i) :
    j ∈ descend below n i ↔ Beneath up j i := by
  constructor
  · exact beneath_of_mem_descend hb
  · rintro ⟨k, hk⟩
    induction n generalizing i k with
    | zero => exact absurd (hn j k hk) (Nat.not_lt_zero k)
    | succ n ih =>
      cases k with
      | zero =>
        cases hk
        exact List.mem_cons_self
      | succ k =>
        obtain ⟨c, hclimb, hc⟩ := climb_succ_last hk
        refine List.mem_cons_of_mem i (List.mem_flatMap.mpr ⟨c, (hb.mem i c).mpr hc, ?_⟩)
        exact ih (hn.child hc) k hclimb

/-- **In a forest a descent meets no node twice.** -/
theorem nodup_descend (h : Acyclic up) (hb : Children up below) (n : Nat) (i : α) :
    (descend below n i).Nodup := by
  induction n generalizing i with
  | zero => exact List.nodup_nil
  | succ n ih =>
    refine List.nodup_cons.mpr ⟨?_, ?_⟩
    · intro hmem
      obtain ⟨c, hc, hi⟩ := List.mem_flatMap.mp hmem
      obtain ⟨k, hk⟩ := beneath_of_mem_descend hb hi
      exact h i k (climb_snoc hk ((hb.mem i c).mp hc))
    · refine List.nodup_flatMap.mpr ⟨fun c _ => ih c, ?_⟩
      refine (hb.nodup i).imp_of_mem ?_
      intro a b ha hb' hne j hja hjb
      have hup := (hb.mem i a).mp ha
      have hup' := (hb.mem i b).mp hb'
      -- the descents of two children share no node: one child would be beneath the other
      rcases (beneath_of_mem_descend hb hja).linear (beneath_of_mem_descend hb hjb) with
        ⟨k, hk⟩ | ⟨k, hk⟩
      · cases k with
        | zero => exact hne (Option.some.inj hk)
        | succ k =>
          obtain ⟨p, hp, hclimb⟩ := climb_succ_eq_some.mp hk
          obtain rfl : i = p := Option.some.inj (hup.symm.trans hp)
          exact h i k (climb_snoc hclimb hup')
      · cases k with
        | zero => exact hne (Option.some.inj hk).symm
        | succ k =>
          obtain ⟨p, hp, hclimb⟩ := climb_succ_eq_some.mp hk
          obtain rfl : i = p := Option.some.inj (hup'.symm.trans hp)
          exact h i k (climb_snoc hclimb hup)

/-! ## Depth -/

/-- The nodes that a climb leaves. -/
def path (up : α → Option α) : Nat → α → List α
  | 0, _ => []
  | k + 1, i => i :: ((up i).map (path up k)).getD []

theorem path_succ_of_up {i p : α} (h : up i = some p) (k : Nat) :
    path up (k + 1) i = i :: path up k p := by
  rw [path, h, Option.map_some, Option.getD_some]

/-- What a climb leaves has a parent, and is above the start. -/
theorem of_mem_path {i j a : α} {k : Nat} (h : climb up k i = some j) (ha : a ∈ path up k i) :
    (up a).isSome = true ∧ ∃ m < k, climb up m i = some a := by
  induction k generalizing i with
  | zero => cases ha
  | succ k ih =>
    obtain ⟨p, hp, hclimb⟩ := climb_succ_eq_some.mp h
    rw [path_succ_of_up hp] at ha
    rcases List.mem_cons.mp ha with rfl | ha
    · exact ⟨by rw [hp]; rfl, 0, Nat.succ_pos k, rfl⟩
    · obtain ⟨hup, m, hm, hclimb⟩ := ih hclimb ha
      exact ⟨hup, m + 1, Nat.succ_lt_succ hm, (climb_succ_of_up hp m).trans hclimb⟩

theorem length_path {i j : α} {k : Nat} (h : climb up k i = some j) : (path up k i).length = k := by
  induction k generalizing i with
  | zero => rfl
  | succ k ih =>
    obtain ⟨p, hp, hclimb⟩ := climb_succ_eq_some.mp h
    rw [path_succ_of_up hp, List.length_cons, ih hclimb]

theorem nodup_path (h : Acyclic up) {i j : α} {k : Nat} (hk : climb up k i = some j) :
    (path up k i).Nodup := by
  induction k generalizing i with
  | zero => exact List.nodup_nil
  | succ k ih =>
    obtain ⟨p, hp, hclimb⟩ := climb_succ_eq_some.mp hk
    rw [path_succ_of_up hp]
    refine List.nodup_cons.mpr ⟨?_, ih hclimb⟩
    intro hmem
    obtain ⟨_, m, _, hm⟩ := of_mem_path hclimb hmem
    exact h i m ((climb_succ_of_up hp m).trans hm)

/-- **A forest is no deeper than it has nodes.** -/
theorem within_of_acyclic [DecidableEq α] (h : Acyclic up) (nodes : List α)
    (hnodes : ∀ i, (up i).isSome = true → i ∈ nodes) (i : α) : Within up (nodes.length + 1) i := by
  intro j k hk
  have hsub : path up k j ⊆ nodes := by
    intro a ha
    exact hnodes a (of_mem_path hk ha).1
  have hle := (List.subperm_of_subset (nodup_path h hk) hsub).length_le
  rw [length_path hk] at hle
  omega

end Forest
