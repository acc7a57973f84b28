import Goca.Auth.Store
import Goca.Lib.Returns
import Goca.Store.Step

/-!
# What a call returns that runs alone

The statements of package auth asked one after the other, by nobody else meanwhile: what each can
answer, with and without a failing connection.
-/

set_option autoImplicit false

namespace Goca.Auth

open Goca.Store (Fault)
open Interleave (Act Sem)
open Interleave.Act

/-- No statement fails. -/
def unfailing (e : Env) : Bool := e.fault == .none

theorem unfailing_iff {e : Env} : unfailing e = true ↔ e.fault = .none := beq_iff_eq

/-- The choices of the environment admit no statement that fails. -/
def Calm (p : Env → Bool) : Prop := ∀ e, p e = true → e.fault = .none

theorem calm_unfailing : Calm unfailing := fun _ he => unfailing_iff.mp he

/-- The choices of the environment admit a connection that does not fail. -/
def AdmitsCalm (p : Env → Bool) : Prop := ∀ e : Env, e.fault = .none → p e = true

theorem admitsCalm_unfailing : AdmitsCalm unfailing := fun _ he => unfailing_iff.mpr he

theorem admitsCalm_all : AdmitsCalm fun _ => true := fun _ _ => rfl

section

variable [Bcrypt] {ε : Type} {p : Env → Bool} {w w' : World}

/-- What a statement over the tables can answer and leave. -/
theorem db_returns {s : DbStmt} {r : Except Go.Error s.Res} :
    (db s).Returns (exec.under p) w r w' ↔
      ∃ e : Env, p e = true ∧ e.fault.apply w (w.exec e.pick s) = (r, w') := by
  constructor
  · rintro ⟨e, x, v, hx, rfl, rfl⟩
    obtain ⟨hp, hx⟩ := Sem.under_eq_some.mp hx
    exact ⟨e, hp, Option.some.inj hx⟩
  · rintro ⟨e, hp, hx⟩
    exact ⟨e, r, w', Sem.under_eq_some.mpr ⟨hp, congrArg some hx⟩, rfl, rfl⟩

/-- A statement that does not fail. -/
theorem db_calm (hp : AdmitsCalm p) (s : DbStmt) (pick : Nat) :
    (db s).Returns (exec.under p) w (w.exec pick s).1 (w.exec pick s).2 :=
  db_returns.mpr ⟨{ now := 0, pick }, hp _ rfl, rfl⟩

/-- A statement that takes effect, and whose answer is lost. -/
theorem db_late (hp : ∀ e, p e = true) (s : DbStmt) :
    (db s).Returns (exec.under p) w (.error (.driver "connection reset")) (w.exec 0 s).2 :=
  db_returns.mpr ⟨{ now := 0, fault := .late "connection reset" }, hp _, rfl⟩

/-- What a statement leaves: what it does, or, after an error, the tables as they were. -/
theorem db_cases {s : DbStmt} {r : Except Go.Error s.Res}
    (h : (db s).Returns (exec.under p) w r w') :
    (∃ pick, w' = (w.exec pick s).2 ∧ (r = (w.exec pick s).1 ∨ ∃ err, r = .error err)) ∨
      (w' = w ∧ ∃ err, r = .error err) := by
  obtain ⟨e, -, hx⟩ := db_returns.mp h
  obtain ⟨_, ⟨text, hans⟩, hw⟩ | ⟨_, hw, hans⟩ := e.fault.apply_cases w (w.exec e.pick s)
  · rw [hx] at hans hw
    exact .inr ⟨hw, _, hans⟩
  · rw [hx] at hans hw
    refine .inl ⟨e.pick, hw, ?_⟩
    rcases hans with hans | ⟨text, hans⟩
    · exact .inl hans
    · exact .inr ⟨_, hans⟩

/-- What a statement answers and leaves in a run in which none fails. -/
theorem db_of_calm (hp : Calm p) {s : DbStmt} {r : Except Go.Error s.Res}
    (h : (db s).Returns (exec.under p) w r w') :
    ∃ pick, r = (w.exec pick s).1 ∧ w' = (w.exec pick s).2 := by
  obtain ⟨e, he, hx⟩ := db_returns.mp h
  rw [hp e he] at hx
  exact ⟨e.pick, (congrArg Prod.fst hx).symm, (congrArg Prod.snd hx).symm⟩

/-- A statement that only reads leaves the tables as they are, also where it fails. -/
theorem db_reads {s : DbStmt} {r : Except Go.Error s.Res} (hs : ∀ pick, (w.exec pick s).2 = w)
    (h : (db s).Returns (exec.under p) w r w') : w' = w := by
  obtain ⟨pick, hw, -⟩ | ⟨hw, -⟩ := db_cases h
  · rw [hw, hs]
  · exact hw

/-- What the host answers. -/
theorem host_returns {s : HostStmt} {r : Except ε s.Res} :
    (host s : Handler ε s.Res).Returns (exec.under p) w r w' ↔
      w' = w ∧ ∃ e : Env, p e = true ∧ r = .ok (hostExec e s) := by
  constructor
  · rintro ⟨e, x, v, hx, rfl, rfl⟩
    obtain ⟨hp, hx⟩ := Sem.under_eq_some.mp hx
    obtain ⟨rfl, rfl⟩ := Prod.mk.inj (Option.some.inj hx)
    exact ⟨rfl, e, hp, rfl⟩
  · rintro ⟨rfl, e, hp, rfl⟩
    exact ⟨e, _, w', Sem.under_eq_some.mpr ⟨hp, rfl⟩, rfl, rfl⟩

/-- The outcome of a call whose error is rewritten. -/
theorem returns_mapError_any {ε' α : Type} {f : ε → ε'} {x : Handler ε α} {r : Except ε' α} :
    (x.mapError f).Returns (exec.under p) w r w' ↔
      ∃ r', x.Returns (exec.under p) w r' w' ∧ r'.mapError f = r := returns_mapResult

end

end Goca.Auth
