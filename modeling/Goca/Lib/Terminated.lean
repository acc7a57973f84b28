import Mathlib.Data.List.Basic

/-!
# Fields with a terminator

A list of fields is written one field after the other, with a terminator behind each. Where the
terminator occurs in no field the fields can be read back, and it is enough to know that of one of
two lists of the same length: the other one would need more terminators than it has fields.
-/

set_option autoImplicit false

namespace Words

variable {α : Type} {z : α}

/-- The fields one after the other, each with a terminator behind it. -/
def terminated (z : α) (fs : List (List α)) : List α := fs.flatMap (· ++ [z])

@[simp] theorem terminated_nil : terminated z [] = [] := rfl

@[simp] theorem terminated_cons (f : List α) (fs : List (List α)) :
    terminated z (f :: fs) = f ++ z :: terminated z fs := by
  simp [terminated]

theorem count_terminated [DecidableEq α] (fs : List (List α)) :
    (terminated z fs).count z = fs.flatten.count z + fs.length := by
  induction fs with
  | nil => rfl
  | cons f fs ih =>
    rw [terminated_cons, List.count_append, List.count_cons_self, ih, List.flatten_cons,
      List.count_append, List.length_cons]
    omega

/-- The first terminator ends the first field. -/
theorem append_terminator_inj {f g r s : List α} (hf : z ∉ f) (hg : z ∉ g)
    (h : f ++ z :: r = g ++ z :: s) : f = g ∧ r = s := by
  induction f generalizing g with
  | nil =>
    cases g with
    | nil => exact ⟨rfl, List.tail_eq_of_cons_eq h⟩
    | cons a g => exact absurd (List.head_eq_of_cons_eq h ▸ List.mem_cons_self ..) hg
  | cons a f ih =>
    cases g with
    | nil => exact absurd (List.head_eq_of_cons_eq h ▸ List.mem_cons_self ..) hf
    | cons b g =>
      obtain ⟨rfl, hrest⟩ := List.cons_eq_cons.mp h
      obtain ⟨rfl, rfl⟩ := ih (List.not_mem_of_not_mem_cons hf) (List.not_mem_of_not_mem_cons hg)
        hrest
      exact ⟨rfl, rfl⟩

/-- What is written as fields without a terminator are such fields. -/
theorem free_of_terminated [DecidableEq α] {fs gs : List (List α)} (hfs : ∀ f ∈ fs, z ∉ f)
    (hlen : gs.length = fs.length) (h : terminated z gs = terminated z fs) : ∀ g ∈ gs, z ∉ g := by
  have hcount := congrArg (List.count z) h
  rw [count_terminated, count_terminated, hlen, Nat.add_right_cancel_iff] at hcount
  have hfree : z ∉ fs.flatten := by
    intro hz
    obtain ⟨f, hf, hzf⟩ := List.mem_flatten.mp hz
    exact hfs f hf hzf
  rw [List.count_eq_zero.mpr hfree, List.count_eq_zero] at hcount
  exact fun g hg hz => hcount (List.mem_flatten.mpr ⟨g, hg, hz⟩)

/-- **Fields are told apart** by what is written of them, where one of the two lists has no
terminator in its fields. -/
theorem terminated_inj [DecidableEq α] {fs gs : List (List α)} (hfs : ∀ f ∈ fs, z ∉ f)
    (hlen : gs.length = fs.length) (h : terminated z gs = terminated z fs) : gs = fs := by
  have hgs := free_of_terminated hfs hlen h
  induction fs generalizing gs with
  | nil => exact List.length_eq_zero_iff.mp hlen
  | cons f fs ih =>
    cases gs with
    | nil => cases hlen
    | cons g gs =>
      rw [terminated_cons, terminated_cons] at h
      obtain ⟨rfl, hrest⟩ := append_terminator_inj (hgs g (List.mem_cons_self ..))
        (hfs f (List.mem_cons_self ..)) h
      rw [ih (fun f hf => hfs f (List.mem_cons_of_mem _ hf)) (Nat.succ.inj hlen) hrest
        fun g hg => hgs g (List.mem_cons_of_mem _ hg)]

end Words
