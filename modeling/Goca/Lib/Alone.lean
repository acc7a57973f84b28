import Mathlib.Data.List.Induction
import Goca.Lib.Trace

/-!
# Programs that run alone

A program that nobody interferes with: between two of its statements the world stays as it is, so
what it is answered follows from what it did before. `Prog.Alone` is a Hoare logic for that: it says
of a program, from a world and a trace on, that each statement it asks is one that `may` allows
there, and that the world and the trace it ends with fit what it returns. The environments range
over a class `adm`, so that one proof covers runs with every failure and says more of those without.

- `Prog.Alone.run`: what it proves holds after every number of moves of the program.
- `Prog.Alone.finishes`: a program all of whose statements are answered comes to its end.
-/

set_option autoImplicit false

namespace Interleave

variable {S : Sig} {α β E W ε ε' : Type}

/-- The moves of the only thread. -/
def Pool.solo (es : List E) : Pool.Schedule E := es.map fun e => (0, e)

/-- From world `w` and trace `q` on, a program that runs alone asks what `may` allows and returns
what fits. -/
def Prog.Alone (sem : Sem S E W) (adm : E → Prop) (may : W → Trace S → S.Stmt → Prop)
    (post : W → Trace S → α → Prop) : Prog S α → W → Trace S → Prop
  | .pure a, w, q => post w q a
  | .ask s k, w, q => may w q s ∧ ∀ e x w', adm e → sem e w s = some (x, w') →
      (k x).Alone sem adm may post w' (q ++ [⟨s, x⟩])

variable {sem : Sem S E W} {adm : E → Prop} {may : W → Trace S → S.Stmt → Prop} {w : W} {q : Trace S}

namespace Prog

variable {post post' : W → Trace S → α → Prop}

theorem Alone.mono {p : Prog S α} (h : ∀ w q a, post w q a → post' w q a)
    (hp : p.Alone sem adm may post w q) : p.Alone sem adm may post' w q := by
  induction p generalizing w q with
  | pure a => exact h w q a hp
  | ask s k ih => exact ⟨hp.1, fun e x w' he hx => ih x (hp.2 e x w' he hx)⟩

theorem alone_pure {a : α} (h : post w q a) : (Prog.pure a).Alone sem adm may post w q := h

/-- **The rule of sequence.** -/
theorem Alone.bind {mid : W → Trace S → α → Prop} {post : W → Trace S → β → Prop} {p : Prog S α}
    {f : α → Prog S β} (hp : p.Alone sem adm may mid w q)
    (hf : ∀ w' q' a, mid w' q' a → (f a).Alone sem adm may post w' q') :
    (p.bind f).Alone sem adm may post w q := by
  induction p generalizing w q with
  | pure a => exact hf w q a hp
  | ask s k ih => exact ⟨hp.1, fun e x w' he hx => ih x (hp.2 e x w' he hx)⟩

/-- What every statement of a footprint keeps holds at the end. -/
theorem Uses.alone {P : S.Stmt → Prop} {J : W → Trace S → Prop} {p : Prog S α} (hp : p.Uses P)
    (hmay : ∀ w q s, J w q → P s → may w q s)
    (keep : ∀ e w q s x w', P s → J w q → sem e w s = some (x, w') → J w' (q ++ [⟨s, x⟩]))
    (h : J w q) : p.Alone sem adm may (fun w q _ => J w q) w q := by
  induction hp generalizing w q with
  | pure a => exact h
  | ask hs _ ih => exact ⟨hmay _ _ _ h hs, fun e x w' _ hx => ih x (keep e w q _ x w' hs h hx)⟩

/-- What every allowed statement keeps holds all along. -/
theorem Alone.keeps {J : W → Trace S → Prop} {p : Prog S α} (hp : p.Alone sem adm may post w q)
    (hJ : ∀ e w q s x w', adm e → may w q s → J w q → sem e w s = some (x, w') →
      J w' (q ++ [⟨s, x⟩])) (h : J w q) :
    p.Alone sem adm (fun w q s => may w q s ∧ J w q) (fun w q a => post w q a ∧ J w q) w q := by
  induction p generalizing w q with
  | pure a => exact ⟨hp, h⟩
  | ask s k ih =>
    exact ⟨⟨hp.1, h⟩, fun e x w' he hx =>
      ih x (hp.2 e x w' he hx) (hJ e w q s x w' he hp.1 h hx)⟩

/-- What a footprint keeps of the trace holds at the end, beside what is proved. -/
theorem Alone.and_keeps {P : S.Stmt → Prop} {J : Trace S → Prop} {p : Prog S α}
    (hp : p.Alone sem adm may post w q) (hu : p.Uses P)
    (hJ : ∀ q s x, J q → P s → J (q ++ [⟨s, x⟩])) (h : J q) :
    p.Alone sem adm may (fun w q a => post w q a ∧ J q) w q := by
  induction hu generalizing w q with
  | pure a => exact ⟨hp, h⟩
  | ask hs _ ih => exact ⟨hp.1, fun e x w' he hx => ih x (hp.2 e x w' he hx) (hJ q _ x h hs)⟩

/-- What holds all along holds now. -/
theorem Alone.holds {J : W → Trace S → Prop} {p : Prog S α}
    (hp : p.Alone sem adm (fun w q s => may w q s ∧ J w q) (fun w q a => post w q a ∧ J w q) w q) :
    J w q := by
  cases p with
  | pure a => exact hp.2
  | ask s k => exact hp.1.2

/-- **After every number of moves** of the only thread, what is left of its program is still as
proved. -/
theorem Alone.run {p : Prog S α} (h : p.Alone sem adm may post w []) {es : List E}
    (hes : ∀ e ∈ es, adm e) :
    ∃ p', ((Pool.init w [p]).run sem (Pool.solo es)).threads = [p'] ∧
      p'.Alone sem adm may post ((Pool.init w [p]).run sem (Pool.solo es)).world
        (own 0 ((Pool.init w [p]).run sem (Pool.solo es)).history) := by
  induction es using List.reverseRecOn with
  | nil => exact ⟨p, rfl, h⟩
  | append_singleton es e ih =>
    obtain ⟨p', hthreads, halone⟩ := ih fun e' he' => hes e' (List.mem_append_left _ he')
    rw [Pool.solo, List.map_append, ← Pool.solo, Pool.run_append]
    show ∃ p', (Pool.step sem _ 0 e).threads = [p'] ∧ _
    generalize (Pool.init w [p]).run sem (Pool.solo es) = σ at hthreads halone
    rcases Pool.step_cases sem σ 0 e with hs | ⟨s, k, x, w', hget, hx, hs⟩
    · refine ⟨p', ?_, ?_⟩
      · rw [hs, hthreads]
      · show Prog.Alone sem adm may post p' (σ.step sem 0 e).world (own 0 (σ.step sem 0 e).history)
        rw [hs]
        exact halone
    · rw [hthreads, List.getElem?_cons_zero, Option.some.injEq] at hget
      subst hget
      refine ⟨k x, ?_, ?_⟩
      · rw [hs, hthreads, List.set_cons_zero]
      · show Prog.Alone sem adm may post (k x) (σ.step sem 0 e).world
          (own 0 (σ.step sem 0 e).history)
        rw [hs, own_snoc_self]
        exact halone.2 e x w' (hes e (List.mem_append_right _ (List.mem_singleton_self e))) hx

/-- What the only thread asks next is allowed. -/
theorem Alone.next {p : Prog S α} (h : p.Alone sem adm may post w []) {es : List E}
    (hes : ∀ e ∈ es, adm e) {s : S.Stmt}
    (hs : ((Pool.init w [p]).run sem (Pool.solo es)).next? 0 = some s) :
    may ((Pool.init w [p]).run sem (Pool.solo es)).world
      (own 0 ((Pool.init w [p]).run sem (Pool.solo es)).history) s := by
  obtain ⟨p', hthreads, halone⟩ := h.run hes
  obtain ⟨k, hk⟩ := Pool.next?_eq_some.mp hs
  rw [hthreads, List.getElem?_cons_zero, Option.some.injEq] at hk
  subst hk
  exact halone.1

/-- What the only thread returned fits. -/
theorem Alone.result {p : Prog S α} (h : p.Alone sem adm may post w []) {es : List E}
    (hes : ∀ e ∈ es, adm e) {a : α}
    (ha : ((Pool.init w [p]).run sem (Pool.solo es)).threads[0]? = some (.pure a)) :
    post ((Pool.init w [p]).run sem (Pool.solo es)).world
      (own 0 ((Pool.init w [p]).run sem (Pool.solo es)).history) a := by
  obtain ⟨p', hthreads, halone⟩ := h.run hes
  rw [hthreads, List.getElem?_cons_zero, Option.some.injEq] at ha
  subst ha
  exact halone

/-- **A program all of whose statements are answered comes to its end**, under every sequence of
environments. -/
theorem Alone.finishes {p : Prog S α} (h : p.Alone sem adm may post w q)
    (answered : ∀ e w q s, adm e → may w q s → (sem e w s).isSome = true) {f : Nat → E}
    (hf : ∀ i, adm (f i)) (history : List (Event S)) :
    ∃ n a, ((Pool.mk w [p] history).run sem (Pool.solo ((List.range n).map f))).threads[0]? =
      some (.pure a) := by
  induction p generalizing w q f history with
  | pure a => exact ⟨0, a, rfl⟩
  | ask s k ih =>
    obtain ⟨⟨x, w'⟩, hx⟩ := Option.isSome_iff_exists.mp (answered (f 0) w q s (hf 0) h.1)
    obtain ⟨n, a, hn⟩ := ih x (h.2 (f 0) x w' (hf 0) hx) (f := fun i => f (i + 1))
      (fun i => hf (i + 1)) (history ++ [⟨0, s, x⟩])
    refine ⟨n + 1, a, ?_⟩
    have hstep : (Pool.mk w [Prog.ask s k] history).step sem 0 (f 0) =
        ⟨w', [k x], history ++ [⟨0, s, x⟩]⟩ := Pool.step_of_ask rfl hx
    have hmoves : Pool.solo ((List.range (n + 1)).map f) =
        (0, f 0) :: Pool.solo ((List.range n).map fun i => f (i + 1)) := by
      rw [List.range_succ_eq_map, List.map_cons, List.map_map]
      rfl
    rw [hmoves, Pool.run_cons, hstep]
    exact hn

/-! ## One environment -/

/-- What a program that runs alone returns and leaves when all its statements meet one
environment. -/
def evalWith (sem : Sem S E W) (e : E) : Prog S α → W → Option (α × W)
  | .pure a, w => some (a, w)
  | .ask s k, w => (sem e w s).bind fun r => (k r.1).evalWith sem e r.2

/-- Where every statement is answered, a program comes to its end. -/
theorem evalWith_total {e : E} (answered : ∀ w s, ∃ r, sem e w s = some r) (p : Prog S α) (w : W) :
    ∃ r, p.evalWith sem e w = some r := by
  induction p generalizing w with
  | pure a => exact ⟨(a, w), rfl⟩
  | ask s k ih =>
    obtain ⟨⟨x, v⟩, hx⟩ := answered w s
    obtain ⟨r, hr⟩ := ih x v
    refine ⟨r, ?_⟩
    rw [evalWith, hx]
    exact hr

/-- What is proved of a program that runs alone holds of what it returns and leaves. -/
theorem Alone.evalWith {e : E} {p : Prog S α} {w w' : W} {a : α}
    (hp : p.Alone sem adm may post w q) (he : adm e) (h : p.evalWith sem e w = some (a, w')) :
    ∃ q', post w' q' a := by
  induction p generalizing w q with
  | pure b =>
    cases h
    exact ⟨q, hp⟩
  | ask s k ih =>
    obtain ⟨⟨x, v⟩, hx, hrest⟩ := Option.bind_eq_some_iff.mp h
    exact ih x (hp.2 e x v he hx) hrest

end Prog

namespace Act

/-- An action that runs alone; what it ends with fits the outcome, an error included. -/
def Alone (sem : Sem S E W) (adm : E → Prop) (may : W → Trace S → S.Stmt → Prop)
    (post : W → Trace S → Except ε α → Prop) (x : Act S ε α) (w : W) (q : Trace S) : Prop :=
  x.run.Alone sem adm may post w q

variable {post : W → Trace S → Except ε α → Prop}

theorem alone_pure {a : α} (h : post w q (.ok a)) :
    (pure a : Act S ε α).Alone sem adm may post w q := h

theorem alone_throw {e : ε} (h : post w q (.error e)) :
    (throw e : Act S ε α).Alone sem adm may post w q := h

theorem Alone.mono {post' : W → Trace S → Except ε α → Prop} {x : Act S ε α}
    (h : ∀ w q r, post w q r → post' w q r) (hx : x.Alone sem adm may post w q) :
    x.Alone sem adm may post' w q := Prog.Alone.mono h hx

/-- **The rule of sequence** for actions: an error ends the whole. -/
theorem Alone.bind {m : W → Trace S → Except ε α → Prop} {post : W → Trace S → Except ε β → Prop}
    {x : Act S ε α} {f : α → Act S ε β} (hx : x.Alone sem adm may m w q)
    (hok : ∀ w' q' a, m w' q' (.ok a) → (f a).Alone sem adm may post w' q')
    (herror : ∀ w' q' e, m w' q' (.error e) → post w' q' (.error e)) :
    (x >>= f).Alone sem adm may post w q := by
  unfold Alone
  rw [run_bind]
  refine Prog.Alone.bind hx ?_
  intro w' q' r hr
  cases r with
  | ok a => exact hok w' q' a hr
  | error e => exact herror w' q' e hr

/-- A check that asks nothing, and what follows it. -/
theorem alone_ofExcept_bind {post : W → Trace S → Except ε β → Prop} {r : Except ε α}
    {f : α → Act S ε β} (hok : ∀ a, r = .ok a → (f a).Alone sem adm may post w q)
    (herror : ∀ e, r = .error e → post w q (.error e)) :
    (ofExcept r >>= f).Alone sem adm may post w q := by
  cases r with
  | ok a => exact hok a rfl
  | error e => exact herror e rfl

theorem alone_failIf_bind {post : W → Trace S → Except ε β → Prop} {c : Prop} [Decidable c] {e : ε}
    {f : Unit → Act S ε β} (hok : ¬ c → (f ()).Alone sem adm may post w q)
    (herror : c → post w q (.error e)) : (failIf c e >>= f).Alone sem adm may post w q := by
  unfold failIf
  by_cases hc : c
  · rw [if_pos hc]
    exact herror hc
  · rw [if_neg hc]
    exact hok hc

/-- A caller that keeps the error as a value goes on from either outcome. -/
theorem alone_attempt_bind {m : W → Trace S → Except ε α → Prop}
    {post : W → Trace S → Except ε' β → Prop} {x : Act S ε α} {f : Except ε α → Act S ε' β}
    (hx : x.Alone sem adm may m w q)
    (hf : ∀ w' q' r, m w' q' r → (f r).Alone sem adm may post w' q') :
    (x.attempt >>= f).Alone sem adm may post w q := by
  unfold Alone
  rw [run_bind, run_attempt, Prog.bind_assoc]
  exact Prog.Alone.bind hx hf

theorem Alone.mapResult {post : W → Trace S → Except ε' β → Prop} {f : Except ε α → Except ε' β}
    {x : Act S ε α} (hx : x.Alone sem adm may (fun w q r => post w q (f r)) w q) :
    (x.mapResult f).Alone sem adm may post w q := Prog.Alone.bind hx fun _ _ _ h => h

end Act

end Interleave
