import Goca.Lib.Alone
import Goca.Lib.Trace

/-!
# What a program that runs alone can return

`Prog.Returns` relates a program and the world it starts from to a result and the world it leaves:
some choice of the environment at each of its statements leads there. It composes like the
program, so what a handler that succeeded has been answered is read off its text.
-/

set_option autoImplicit false

namespace Interleave

variable {S : Sig} {α β E W ε ε' : Type} {sem : Sem S E W} {w w' : W}

/-- From a world a program can return a value and leave a world. -/
def Prog.Returns (sem : Sem S E W) : Prog S α → W → α → W → Prop
  | .pure b, w, a, w' => b = a ∧ w = w'
  | .ask s k, w, a, w' => ∃ e x v, sem e w s = some (x, v) ∧ (k x).Returns sem v a w'

theorem Prog.returns_bind {p : Prog S α} {f : α → Prog S β} {b : β} :
    (p.bind f).Returns sem w b w' ↔ ∃ a v, p.Returns sem w a v ∧ (f a).Returns sem v b w' := by
  induction p generalizing w with
  | pure a =>
    constructor
    · intro h
      exact ⟨a, w, ⟨rfl, rfl⟩, h⟩
    · rintro ⟨_, _, ⟨rfl, rfl⟩, h⟩
      exact h
  | ask s k ih =>
    constructor
    · rintro ⟨e, x, v, hx, h⟩
      obtain ⟨a, u, ha, hb⟩ := (ih x).mp h
      exact ⟨a, u, ⟨e, x, v, hx, ha⟩, hb⟩
    · rintro ⟨a, u, ⟨e, x, v, hx, ha⟩, hb⟩
      exact ⟨e, x, v, hx, (ih x).mpr ⟨a, u, ha, hb⟩⟩

/-- What it returns under one environment it can return. -/
theorem Prog.returns_of_evalWith {e : E} {p : Prog S α} {a : α}
    (h : p.evalWith sem e w = some (a, w')) : p.Returns sem w a w' := by
  induction p generalizing w with
  | pure b =>
    cases h
    exact ⟨rfl, rfl⟩
  | ask s k ih =>
    obtain ⟨⟨x, v⟩, hx, hrest⟩ := Option.bind_eq_some_iff.mp h
    exact ⟨e, x, v, hx, ih x hrest⟩

/-- Under more choices of the environment it can return the same, and more. -/
theorem Prog.Returns.mono {sem' : Sem S E W}
    (h : ∀ e w s x, sem e w s = some x → sem' e w s = some x) {p : Prog S α} {a : α}
    (hp : p.Returns sem w a w') : p.Returns sem' w a w' := by
  induction p generalizing w with
  | pure b => exact hp
  | ask s k ih =>
    obtain ⟨e, x, v, hx, hrest⟩ := hp
    exact ⟨e, x, v, h e w s _ hx, ih x hrest⟩

/-- What every statement of a footprint keeps of the world, the program keeps. -/
theorem Prog.Uses.returns_keeps {P : S.Stmt → Prop} {J : W → Prop} {p : Prog S α} (hp : p.Uses P)
    (hJ : ∀ e u s x v, P s → sem e u s = some (x, v) → J u → J v) {a : α}
    (h : p.Returns sem w a w') (hw : J w) : J w' := by
  induction hp generalizing w with
  | pure b => exact h.2 ▸ hw
  | ask hs _ ih =>
    obtain ⟨e, x, v, hx, hrest⟩ := h
    exact ih x hrest (hJ e w _ x v hs hx hw)

/-- A program whose statements are all answered returns. -/
theorem Prog.Uses.returns {P : S.Stmt → Prop} {p : Prog S α} (hp : p.Uses P)
    (hans : ∀ s u, P s → ∃ e x v, sem e u s = some (x, v)) (w : W) :
    ∃ a w', p.Returns sem w a w' := by
  induction hp generalizing w with
  | pure b => exact ⟨b, w, rfl, rfl⟩
  | ask hs _ ih =>
    obtain ⟨e, x, v, hx⟩ := hans _ w hs
    obtain ⟨a, w', h⟩ := ih x v
    exact ⟨a, w', e, x, v, hx, h⟩

/-- A semantics under those choices of the environment that satisfy a condition. -/
def Sem.under (sem : Sem S E W) (p : E → Bool) : Sem S E W := fun e w s =>
  if p e then sem e w s else none

theorem Sem.under_eq_some {p : E → Bool} {e : E} {s : S.Stmt} {x : S.Ans s × W} :
    sem.under p e w s = some x ↔ p e = true ∧ sem e w s = some x := by
  unfold Sem.under
  by_cases hp : p e = true
  · rw [if_pos hp]
    exact ⟨fun h => ⟨hp, h⟩, fun h => h.2⟩
  · rw [if_neg hp]
    constructor
    · intro h
      cases h
    · exact fun h => absurd h.1 hp

/-- Without a condition a semantics is what it is. -/
theorem Sem.under_true (sem : Sem S E W) : (sem.under fun _ => true) = sem := rfl

namespace Act

/-- From a world an action can end with an outcome and leave a world. -/
def Returns (sem : Sem S E W) (x : Act S ε α) (w : W) (r : Except ε α) (w' : W) : Prop :=
  x.run.Returns sem w r w'

/-- What it returns under a condition on the environment it can return. -/
theorem Returns.of_under {p : E → Bool} {x : Act S ε α} {r : Except ε α}
    (h : x.Returns (sem.under p) w r w') : x.Returns sem w r w' :=
  Prog.Returns.mono (fun _ _ _ _ hx => (Sem.under_eq_some.mp hx).2) h

/-- An action that succeeds under one environment can succeed as it does there. -/
theorem exists_returns (sem : Sem S E W) (e : E) (x : Act S ε α) (w : W)
    (h : (x.run.evalWith sem e w).any (fun r => r.1.toOption.isSome) = true) :
    ∃ a w', x.Returns sem w (.ok a) w' ∧ x.run.evalWith sem e w = some (.ok a, w') := by
  obtain ⟨⟨r, w'⟩, hx, hr⟩ := (Option.any_eq_true _ _).mp h
  cases r with
  | error err => cases hr
  | ok a => exact ⟨a, w', Prog.returns_of_evalWith hx, hx⟩

/-- **A sequence succeeds** when both parts do, one after the other. -/
theorem returns_bind {x : Act S ε α} {f : α → Act S ε β} {b : β} :
    (x >>= f).Returns sem w (.ok b) w' ↔
      ∃ a v, x.Returns sem w (.ok a) v ∧ (f a).Returns sem v (.ok b) w' := by
  unfold Returns
  rw [run_bind, Prog.returns_bind]
  constructor
  · rintro ⟨r, v, hr, h⟩
    cases r with
    | error e => exact absurd h.1 (by simp)
    | ok a => exact ⟨a, v, hr, h⟩
  · rintro ⟨a, v, ha, h⟩
    exact ⟨.ok a, v, ha, h⟩

/-- A sequence ends as its second part does, or with the error of its first. -/
theorem returns_bind_any {x : Act S ε α} {f : α → Act S ε β} {b : Except ε β} :
    (x >>= f).Returns sem w b w' ↔
      (∃ a v, x.Returns sem w (.ok a) v ∧ (f a).Returns sem v b w') ∨
        ∃ e, b = .error e ∧ x.Returns sem w (.error e) w' := by
  unfold Returns
  rw [run_bind, Prog.returns_bind]
  constructor
  · rintro ⟨r, v, hr, h⟩
    cases r with
    | ok a => exact .inl ⟨a, v, hr, h⟩
    | error e =>
      obtain ⟨rfl, rfl⟩ := h
      exact .inr ⟨e, rfl, hr⟩
  · rintro (⟨a, v, ha, h⟩ | ⟨e, rfl, he⟩)
    · exact ⟨.ok a, v, ha, h⟩
    · exact ⟨.error e, w', he, rfl, rfl⟩

/-- What the first part keeps, and the second part after it, a sequence keeps however it ends. -/
theorem Returns.bind_keeps {J : W → Prop} {x : Act S ε α} {f : α → Act S ε β} {b : Except ε β}
    (h : (x >>= f).Returns sem w b w') (hx : ∀ r v, x.Returns sem w r v → J v)
    (hf : ∀ a v, x.Returns sem w (.ok a) v → ∀ r u, (f a).Returns sem v r u → J u) : J w' := by
  rcases returns_bind_any.mp h with ⟨a, v, ha, hrest⟩ | ⟨e, -, he⟩
  · exact hf a v ha b w' hrest
  · exact hx (.error e) w' he

theorem returns_pure {a b : α} :
    (pure a : Act S ε α).Returns sem w (.ok b) w' ↔ a = b ∧ w = w' := by
  show (Except.ok a = Except.ok b ∧ _) ↔ _
  rw [Except.ok.injEq]

theorem returns_pure_any {a : α} {b : Except ε α} :
    (pure a : Act S ε α).Returns sem w b w' ↔ .ok a = b ∧ w = w' := Iff.rfl

/-- What fails does not succeed. -/
theorem not_returns_throw {e : ε} {a : α} :
    ¬ (throw e : Act S ε α).Returns sem w (.ok a) w' := fun h => nomatch h.1

theorem returns_ofExcept {r : Except ε α} {a : α} :
    (ofExcept r : Act S ε α).Returns sem w (.ok a) w' ↔ r = .ok a ∧ w = w' := Iff.rfl

theorem returns_ofExcept_any {r r' : Except ε α} :
    (ofExcept r : Act S ε α).Returns sem w r' w' ↔ r = r' ∧ w = w' := Iff.rfl

/-- A check that is passed changes nothing. -/
theorem returns_failIf {c : Prop} [Decidable c] {e : ε} {u : Unit} :
    (failIf c e : Act S ε Unit).Returns sem w (.ok u) w' ↔ ¬ c ∧ w = w' := by
  unfold failIf
  by_cases hc : c
  · rw [if_pos hc]
    constructor
    · intro h
      exact nomatch h.1
    · exact fun h => absurd hc h.1
  · rw [if_neg hc, returns_pure]
    exact ⟨fun h => ⟨hc, h.2⟩, fun h => ⟨rfl, h.2⟩⟩

/-- A check whose condition does not hold is passed. -/
theorem not_returns_failIf_error {c : Prop} [Decidable c] {e e' : ε} (hc : ¬ c) :
    ¬ (failIf c e : Act S ε Unit).Returns sem w (.error e') w' := by
  unfold failIf
  rw [if_neg hc]
  exact fun h => nomatch h.1

/-- A check changes nothing, passed or not. -/
theorem returns_failIf_world {c : Prop} [Decidable c] {e : ε} {r : Except ε Unit}
    (h : (failIf c e : Act S ε Unit).Returns sem w r w') : w = w' := by
  unfold failIf at h
  split at h
  · exact h.2
  · exact h.2

theorem returns_mapResult {f : Except ε α → Except ε' β} {x : Act S ε α} {b : Except ε' β} :
    (x.mapResult f).Returns sem w b w' ↔ ∃ r, x.Returns sem w r w' ∧ f r = b := by
  unfold Returns
  show (x.run.bind fun r => .pure (f r)).Returns sem w b w' ↔ _
  rw [Prog.returns_bind]
  constructor
  · rintro ⟨r, v, hr, hb, rfl⟩
    exact ⟨r, hr, hb⟩
  · rintro ⟨r, hr, hb⟩
    exact ⟨r, w', hr, hb, rfl⟩

/-- A caller that keeps the error goes on from the outcome. -/
theorem returns_attempt {x : Act S ε α} {r : Except ε α} :
    (x.attempt : Act S ε' (Except ε α)).Returns sem w (.ok r) w' ↔ x.Returns sem w r w' := by
  unfold attempt
  rw [returns_mapResult]
  constructor
  · rintro ⟨r', h, heq⟩
    cases heq
    exact h
  · exact fun h => ⟨r, h, rfl⟩

/-- The outcome of a call that keeps the error is never an error. -/
theorem returns_attempt_any {x : Act S ε α} {r : Except ε' (Except ε α)} :
    (x.attempt : Act S ε' (Except ε α)).Returns sem w r w' ↔
      ∃ r', r = .ok r' ∧ x.Returns sem w r' w' := by
  unfold attempt
  rw [returns_mapResult]
  constructor
  · rintro ⟨r', h, rfl⟩
    exact ⟨r', rfl, h⟩
  · rintro ⟨r', rfl, h⟩
    exact ⟨r', h, rfl⟩

/-- What follows a call that keeps the error goes on from its outcome. -/
theorem returns_attempt_bind {x : Act S ε α} {f : Except ε α → Act S ε' β} {b : Except ε' β} :
    (x.attempt >>= f).Returns sem w b w' ↔
      ∃ r v, x.Returns sem w r v ∧ (f r).Returns sem v b w' := by
  rw [returns_bind_any]
  constructor
  · rintro (⟨r, v, hx, hf⟩ | ⟨e, -, he⟩)
    · exact ⟨r, v, returns_attempt.mp hx, hf⟩
    · obtain ⟨r, hr, -⟩ := returns_attempt_any.mp he
      cases hr
  · rintro ⟨r, v, hx, hf⟩
    exact .inl ⟨r, v, returns_attempt.mpr hx, hf⟩

theorem returns_mapError {f : ε → ε'} {x : Act S ε α} {a : α} :
    (x.mapError f).Returns sem w (.ok a) w' ↔ x.Returns sem w (.ok a) w' := by
  unfold mapError
  rw [returns_mapResult]
  constructor
  · rintro ⟨r, h, heq⟩
    cases r with
    | ok b => cases heq; exact h
    | error e => cases heq
  · exact fun h => ⟨.ok a, h, rfl⟩

/-! ## Actions that can end in one way only -/

/-- From a world an action ends with one outcome and leaves the world as it was. -/
def Settles (sem : Sem S E W) (x : Act S ε α) (w : W) (r : Except ε α) : Prop :=
  ∀ r' w', x.Returns sem w r' w' ↔ r' = r ∧ w = w'

theorem Settles.returns {x : Act S ε α} {r : Except ε α} (h : x.Settles sem w r) :
    x.Returns sem w r w := (h r w).mpr ⟨rfl, rfl⟩

theorem settles_ofExcept {r : Except ε α} : (ofExcept r : Act S ε α).Settles sem w r :=
  fun _ _ => returns_ofExcept_any.trans (and_congr_left fun _ => eq_comm)

theorem settles_pure {a : α} : (pure a : Act S ε α).Settles sem w (.ok a) := settles_ofExcept

theorem settles_throw {e : ε} : (throw e : Act S ε α).Settles sem w (.error e) := settles_ofExcept

theorem settles_failIf {c : Prop} [Decidable c] {e : ε} (hc : ¬ c) :
    (failIf c e : Act S ε Unit).Settles sem w (.ok ()) := by
  unfold failIf
  rw [if_neg hc]
  exact settles_pure

theorem settles_failIf_error {c : Prop} [Decidable c] {e : ε} (hc : c) :
    (failIf c e : Act S ε Unit).Settles sem w (.error e) := by
  unfold failIf
  rw [if_pos hc]
  exact settles_throw

/-- **What follows an action that ends in one way** goes on from there. -/
theorem Settles.returns_bind {x : Act S ε α} {f : α → Act S ε β} {a : α} {b : Except ε β}
    (h : x.Settles sem w (.ok a)) :
    (x >>= f).Returns sem w b w' ↔ (f a).Returns sem w b w' := by
  rw [returns_bind_any]
  constructor
  · rintro (⟨a', v, ha, hb⟩ | ⟨e, -, he⟩)
    · obtain ⟨heq, rfl⟩ := (h _ _).mp ha
      cases heq
      exact hb
    · cases ((h _ _).mp he).1
  · exact fun hb => .inl ⟨a, w, h.returns, hb⟩

theorem Settles.bind {x : Act S ε α} {f : α → Act S ε β} {a : α} {b : Except ε β}
    (h : x.Settles sem w (.ok a)) (hf : (f a).Settles sem w b) : (x >>= f).Settles sem w b :=
  fun r w' => h.returns_bind.trans (hf r w')

/-- What follows an action that fails does not take place. -/
theorem Settles.bind_error {x : Act S ε α} {f : α → Act S ε β} {e : ε}
    (h : x.Settles sem w (.error e)) : (x >>= f).Settles sem w (.error e) := by
  intro r w'
  rw [returns_bind_any]
  constructor
  · rintro (⟨a', v, ha, -⟩ | ⟨e', rfl, he⟩)
    · cases ((h _ _).mp ha).1
    · obtain ⟨heq, rfl⟩ := (h _ _).mp he
      cases heq
      exact ⟨rfl, rfl⟩
  · rintro ⟨rfl, rfl⟩
    exact .inr ⟨e, rfl, h.returns⟩

theorem Settles.mapResult {x : Act S ε α} {r : Except ε α} (h : x.Settles sem w r)
    (f : Except ε α → Except ε' β) : (x.mapResult f).Settles sem w (f r) := by
  intro r' w'
  rw [returns_mapResult]
  constructor
  · rintro ⟨r₀, hr, rfl⟩
    obtain ⟨rfl, rfl⟩ := (h _ _).mp hr
    exact ⟨rfl, rfl⟩
  · rintro ⟨rfl, rfl⟩
    exact ⟨r, h.returns, rfl⟩

theorem Settles.attempt {x : Act S ε α} {r : Except ε α} (h : x.Settles sem w r) :
    (x.attempt : Act S ε' (Except ε α)).Settles sem w (.ok r) := h.mapResult _

theorem Settles.mapError {x : Act S ε α} {r : Except ε α} (h : x.Settles sem w r) (f : ε → ε') :
    (x.mapError f).Settles sem w (r.mapError f) := h.mapResult _

/-- An action that asks one statement ends as that is answered. -/
theorem settles_ask {s : S.Stmt} {f : S.Ans s → Except ε α} {x : S.Ans s}
    (hx : ∀ e r, sem e w s = some r → r = (x, w)) (hsome : ∃ e, sem e w s = some (x, w)) :
    Settles sem (ExceptT.mk (.ask s fun y => .pure (f y))) w (f x) := by
  intro r w'
  constructor
  · rintro ⟨e, y, v, hy, rfl, rfl⟩
    cases hx e _ hy
    exact ⟨rfl, rfl⟩
  · rintro ⟨rfl, rfl⟩
    obtain ⟨e, he⟩ := hsome
    exact ⟨e, x, w, he, rfl, rfl⟩

end Act

end Interleave
