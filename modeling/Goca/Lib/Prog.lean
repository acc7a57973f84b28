import Mathlib.Logic.Function.Basic
import Mathlib.Data.List.Basic

/-!
# Programs of atomic statements

A handler that talks to a shared store is a tree: it asks one statement, waits for the answer, and
goes on with what the answer selects. `Prog S α` is that tree over a signature `S` of statements.
Whatever the handler computes between two statements is in the continuation, so two handlers can
only interfere where one of them asks.

What a statement does is a `Sem`: an environment choice and a world select the answer and the world
after. The semantics is partial, because a statement need not admit every choice.
-/

set_option autoImplicit false

namespace Interleave

/-- A signature: the atomic statements and the type of each one's answers. -/
structure Sig where
  Stmt : Type
  Ans : Stmt → Type

/-- A program over a signature: an answer, or a statement and what follows each answer to it. -/
inductive Prog (S : Sig) (α : Type) : Type
  | pure (a : α) : Prog S α
  | ask (s : S.Stmt) (k : S.Ans s → Prog S α) : Prog S α

variable {S : Sig} {α β γ : Type}

namespace Prog

/-- Sequencing: graft the second program onto every answer of the first. -/
def bind : Prog S α → (α → Prog S β) → Prog S β
  | .pure a, f => f a
  | .ask s k, f => .ask s fun x => (k x).bind f

instance : Monad (Prog S) where
  pure := .pure
  bind := .bind

@[simp] theorem pure_eq (a : α) : (Pure.pure a : Prog S α) = .pure a := rfl

@[simp] theorem bind_eq (p : Prog S α) (f : α → Prog S β) : p >>= f = p.bind f := rfl

@[simp] theorem pure_bind (a : α) (f : α → Prog S β) : (Prog.pure a).bind f = f a := rfl

@[simp] theorem ask_bind (s : S.Stmt) (k : S.Ans s → Prog S α) (f : α → Prog S β) :
    (Prog.ask s k).bind f = .ask s fun x => (k x).bind f := rfl

theorem bind_pure (p : Prog S α) : p.bind .pure = p := by
  induction p with
  | pure a => rfl
  | ask s k ih => simp only [ask_bind, ih]

theorem bind_assoc (p : Prog S α) (f : α → Prog S β) (g : β → Prog S γ) :
    (p.bind f).bind g = p.bind fun a => (f a).bind g := by
  induction p with
  | pure a => rfl
  | ask s k ih => simp only [ask_bind, ih]

instance : LawfulMonad (Prog S) := LawfulMonad.mk' _ bind_pure (fun _ _ => rfl) bind_assoc

/-- The statement a program is about to ask, if it has not finished. -/
def head? : Prog S α → Option S.Stmt
  | .pure _ => none
  | .ask s _ => some s

/-- The value a finished program returned. -/
def result? : Prog S α → Option α
  | .pure a => some a
  | .ask _ _ => none

end Prog

/-- What a statement does: an environment choice and a world select an answer and the world after,
or nothing when the statement does not admit the choice. -/
abbrev Sem (S : Sig) (E W : Type) := E → W → (s : S.Stmt) → Option (S.Ans s × W)

/-! ## Programs that may fail -/

/-- A program that returns a value or an error, as every handler does. -/
abbrev Act (S : Sig) (ε : Type) := ExceptT ε (Prog S)

variable {ε ε' : Type}

/-- Change the outcome of an action, its error included, without asking anything more. -/
def Act.mapResult (f : Except ε α → Except ε' β) (x : Act S ε α) : Act S ε' β :=
  ExceptT.mk (x.run.bind fun r => .pure (f r))

/-- Run an action and keep its error as a value, for a caller that handles or ignores it. -/
def Act.attempt (x : Act S ε α) : Act S ε' (Except ε α) := x.mapResult .ok

/-- Rewrite the error of an action, for a caller that wraps it. -/
def Act.mapError (f : ε → ε') (x : Act S ε α) : Act S ε' α := x.mapResult (Except.mapError f)

/-- Stop with an error where a condition holds: the early return of a check. -/
def Act.failIf (c : Prop) [Decidable c] (e : ε) : Act S ε Unit := if c then throw e else pure ()

/-- An action that fails or succeeds without asking anything. -/
def Act.ofExcept (r : Except ε α) : Act S ε α := ExceptT.mk (.pure r)

/-- How an action continues from the outcome of the action before it: an error ends it. -/
def Act.after (f : α → Act S ε β) : Except ε α → Prog S (Except ε β)
  | .ok a => (f a).run
  | .error e => .pure (.error e)

@[simp] theorem Act.after_ok (f : α → Act S ε β) (a : α) : Act.after f (.ok a) = (f a).run := rfl

@[simp] theorem Act.after_error (f : α → Act S ε β) (e : ε) :
    Act.after f (.error e) = .pure (.error e) := rfl

namespace Act

theorem run_bind (x : Act S ε α) (f : α → Act S ε β) :
    (x >>= f).run = x.run.bind (Act.after f) := by
  show Prog.bind x _ = Prog.bind x _
  congr 1
  funext r
  cases r <;> rfl

theorem run_attempt (x : Act S ε α) :
    (x.attempt : Act S ε' (Except ε α)).run = x.run.bind fun r => .pure (.ok r) := rfl

end Act

end Interleave
