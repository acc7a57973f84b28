import Mathlib.Algebra.BigOperators.Group.List.Basic
import Mathlib.Algebra.Order.Group.Defs
import Mathlib.Tactic.Abel
import Goca.Lib.Trace

/-!
# What a program may spend

Every statement is charged, and a program costs at most `c` where the charges of its statements add
up to no more than `c`, whatever it is answered. The bound is read off the program's text, as
sequence adds and a choice takes either side, and it bounds the charges on every trace.
-/

set_option autoImplicit false

namespace Interleave

variable {S : Sig} {C α β ε ε' : Type} [AddCommGroup C]

/-- What the statements of a trace are charged in all. -/
def spent (charge : S.Stmt → C) (q : Trace S) : C := (q.map fun a => charge a.1).sum

@[simp] theorem spent_nil (charge : S.Stmt → C) : spent charge [] = 0 := rfl

theorem spent_cons (charge : S.Stmt → C) (a : (s : S.Stmt) × S.Ans s) (q : Trace S) :
    spent charge (a :: q) = charge a.1 + spent charge q := by
  rw [spent, List.map_cons, List.sum_cons]
  rfl

theorem spent_append (charge : S.Stmt → C) (q q' : Trace S) :
    spent charge (q ++ q') = spent charge q + spent charge q' := by
  rw [spent, List.map_append, List.sum_append]
  rfl

theorem spent_snoc (charge : S.Stmt → C) (q : Trace S) (s : S.Stmt) (x : S.Ans s) :
    spent charge (q ++ [⟨s, x⟩]) = spent charge q + charge s := by
  rw [spent_append]
  exact congrArg (spent charge q + ·) (List.sum_singleton)

variable [PartialOrder C]

/-- The charges of a program are at most `c`, whatever it is answered. -/
def Prog.Costs (charge : S.Stmt → C) : Prog S α → C → Prop
  | .pure _, c => 0 ≤ c
  | .ask s k, c => charge s ≤ c ∧ ∀ x, (k x).Costs charge (c - charge s)

/-- The cost of an action. -/
def Act.Costs (charge : S.Stmt → C) (x : Act S ε α) (c : C) : Prop := x.run.Costs charge c

variable {charge : S.Stmt → C} {c c' : C}

theorem Act.costs_pure (a : α) : (pure a : Act S ε α).Costs charge 0 := le_refl (0 : C)

theorem Act.costs_ite {p : Prop} [Decidable p] {x y : Act S ε α} (hx : p → x.Costs charge c)
    (hy : ¬ p → y.Costs charge c) : (if p then x else y).Costs charge c := by
  by_cases hp : p
  · rw [if_pos hp]
    exact hx hp
  · rw [if_neg hp]
    exact hy hp

variable [IsOrderedAddMonoid C]

namespace Prog

theorem Costs.mono {p : Prog S α} (h : p.Costs charge c) (hc : c ≤ c') : p.Costs charge c' := by
  induction p generalizing c c' with
  | pure a =>
    have h : 0 ≤ c := h
    exact h.trans hc
  | ask s k ih => exact ⟨h.1.trans hc, fun x => ih x (h.2 x) (sub_le_sub_right hc _)⟩

/-- **The rule of sequence**: costs add. -/
theorem Costs.bind {p : Prog S α} {f : α → Prog S β} (hp : p.Costs charge c)
    (hf : ∀ a, (f a).Costs charge c') (hc' : 0 ≤ c') : (p.bind f).Costs charge (c + c') := by
  induction p generalizing c with
  | pure a => exact (hf a).mono (le_add_of_nonneg_left hp)
  | ask s k ih =>
    refine ⟨le_add_of_le_of_nonneg hp.1 hc', fun x => ?_⟩
    have hsub : c + c' - charge s = c - charge s + c' := by abel
    rw [hsub]
    exact ih x (hp.2 x)

/-- **A cost bounds the charges on every trace**: what was spent, and the charge of what is asked
next, are within it. -/
theorem Costs.traced {p : Prog S α} (h : p.Costs charge c) (q : Trace S) :
    p.Traced (fun q' s => spent charge q' + charge s ≤ spent charge q + c) (fun _ _ => True) q := by
  have hgeneral (p : Prog S α) (q' : Trace S) (c' : C) (h : p.Costs charge c')
      (hle : spent charge q' + c' ≤ spent charge q + c) :
      p.Traced (fun q' s => spent charge q' + charge s ≤ spent charge q + c) (fun _ _ => True)
        q' := by
    induction p generalizing q' c' with
    | pure a => exact traced_pure.mpr trivial
    | ask s k ih =>
      refine traced_ask.mpr ⟨(add_le_add_right h.1 _).trans hle, fun x => ih x _ _ (h.2 x) ?_⟩
      have hsum : spent charge q' + charge s + (c' - charge s) = spent charge q' + c' := by abel
      rw [spent_snoc, hsum]
      exact hle
  exact hgeneral p q c h le_rfl

end Prog

namespace Act

theorem Costs.mono {x : Act S ε α} (h : x.Costs charge c) (hc : c ≤ c') : x.Costs charge c' :=
  Prog.Costs.mono h hc

/-- **The rule of sequence** for actions. -/
theorem Costs.bind {x : Act S ε α} {f : α → Act S ε β} (hx : x.Costs charge c)
    (hf : ∀ a, (f a).Costs charge c') (hc' : 0 ≤ c') : (x >>= f).Costs charge (c + c') := by
  unfold Costs
  rw [run_bind]
  refine Prog.Costs.bind hx (fun r => ?_) hc'
  cases r with
  | ok a => exact hf a
  | error e => exact hc'

theorem Costs.mapResult {x : Act S ε α} (hx : x.Costs charge c) (f : Except ε α → Except ε' β) :
    (x.mapResult f).Costs charge c := by
  have hzero : c = c + 0 := (add_zero c).symm
  rw [hzero]
  exact Prog.Costs.bind hx (fun _ => le_refl (0 : C)) le_rfl

theorem Costs.attempt {x : Act S ε α} (hx : x.Costs charge c) :
    (x.attempt : Act S ε' (Except ε α)).Costs charge c := hx.mapResult _

end Act

end Interleave
