import Goca.Lib.Alone

/-!
# Two runs in lockstep

What a program tells its caller about the world it runs in: nothing, as far as two worlds make it
ask the same statements and return the same. `Prog.Lockstep` relates two runs, each from a world of
its own, that ask the same statements in the same order; the answers may differ as long as what
follows them does not. It is proved of a program's text with the rules below, and
`Prog.Lockstep.run` carries it to every sequence of environments.
-/

set_option autoImplicit false

namespace Interleave

variable {S : Sig} {α β E W ε : Type}

/-- Two runs that ask the same statements, whatever the environment, and end as `post` says. -/
inductive Prog.Lockstep (sem : Sem S E W) (post : α → W → α → W → Prop) :
    Prog S α → W → Prog S α → W → Prop
  | pure {a a' : α} {w w' : W} (h : post a w a' w') :
    Prog.Lockstep sem post (.pure a) w (.pure a') w'
  | ask {s : S.Stmt} {k k' : S.Ans s → Prog S α} {w w' : W}
    (admits : ∀ e, (sem e w s).isSome = (sem e w' s).isSome)
    (next : ∀ e x v x' v', sem e w s = some (x, v) → sem e w' s = some (x', v') →
      Prog.Lockstep sem post (k x) v (k' x') v') :
    Prog.Lockstep sem post (.ask s k) w (.ask s k') w'

namespace Prog

variable {sem : Sem S E W} {post : α → W → α → W → Prop}

/-- **The rule of sequence.** -/
theorem Lockstep.bind {post : β → W → β → W → Prop} {mid : α → W → α → W → Prop}
    {p p' : Prog S α} {f f' : α → Prog S β} {w w' : W} (hp : p.Lockstep sem mid w p' w')
    (hf : ∀ a v a' v', mid a v a' v' → (f a).Lockstep sem post v (f' a') v') :
    (p.bind f).Lockstep sem post w (p'.bind f') w' := by
  induction hp with
  | pure ha => exact hf _ _ _ _ ha
  | ask admits _ ih => exact .ask admits ih

/-- The statements of a history, in order. -/
def asked (h : List (Event S)) : List S.Stmt := h.map Event.stmt

/-- **After every number of moves** of either run, the two have asked the same and what is left of
them is still in lockstep. -/
theorem Lockstep.run {p p' : Prog S α} {w w' : W} (h : p.Lockstep sem post w p' w')
    (es : List E) :
    ∃ q q', ((Pool.init w [p]).run sem (Pool.solo es)).threads = [q] ∧
      ((Pool.init w' [p']).run sem (Pool.solo es)).threads = [q'] ∧
      asked ((Pool.init w [p]).run sem (Pool.solo es)).history =
        asked ((Pool.init w' [p']).run sem (Pool.solo es)).history ∧
      q.Lockstep sem post ((Pool.init w [p]).run sem (Pool.solo es)).world
        q' ((Pool.init w' [p']).run sem (Pool.solo es)).world := by
  induction es using List.reverseRecOn with
  | nil => exact ⟨p, p', rfl, rfl, rfl, h⟩
  | append_singleton es e ih =>
    obtain ⟨q, q', hq, hq', hasked, hlock⟩ := ih
    rw [Pool.solo, List.map_append, ← Pool.solo, Pool.run_append, Pool.run_append]
    generalize (Pool.init w [p]).run sem (Pool.solo es) = σ at hq hasked hlock
    generalize (Pool.init w' [p']).run sem (Pool.solo es) = σ' at hq' hasked hlock
    show ∃ q q', (σ.step sem 0 e).threads = [q] ∧ (σ'.step sem 0 e).threads = [q'] ∧
      asked (σ.step sem 0 e).history = asked (σ'.step sem 0 e).history ∧
      q.Lockstep sem post (σ.step sem 0 e).world q' (σ'.step sem 0 e).world
    obtain ⟨v, threads, history⟩ := σ
    obtain ⟨v', threads', history'⟩ := σ'
    subst hq
    subst hq'
    cases hlock with
    | pure hpost => exact ⟨_, _, rfl, rfl, hasked, .pure hpost⟩
    | ask admits next =>
      rename_i s k k'
      cases hx : sem e v s with
      | none =>
        have hx' : sem e v' s = none := by
          have hnone := admits e
          rw [hx] at hnone
          exact Option.not_isSome_iff_eq_none.mp (by rw [← hnone]; exact Bool.false_ne_true)
        refine ⟨.ask s k, .ask s k', ?_, ?_, ?_, ?_⟩ <;>
          simp only [Pool.step, List.getElem?_cons_zero, hx, hx']
        · exact hasked
        · exact .ask admits next
      | some r =>
        obtain ⟨x, u⟩ := r
        have hsome : (sem e v' s).isSome = true := by rw [← admits e, hx]; rfl
        obtain ⟨⟨x', u'⟩, hx'⟩ := Option.isSome_iff_exists.mp hsome
        refine ⟨k x, k' x', ?_, ?_, ?_, ?_⟩ <;>
          simp only [Pool.step, List.getElem?_cons_zero, List.set_cons_zero, hx, hx']
        · show asked (history ++ [⟨0, s, x⟩]) = asked (history' ++ [⟨0, s, x'⟩])
          rw [asked, asked, List.map_append, List.map_append]
          exact congrArg (· ++ [s]) hasked
        · exact next e x u x' u' hx hx'

end Prog

namespace Act

/-- Two actions in lockstep. -/
def Lockstep (sem : Sem S E W) (post : Except ε α → W → Except ε α → W → Prop) (x : Act S ε α)
    (w : W) (x' : Act S ε α) (w' : W) : Prop := x.run.Lockstep sem post w x'.run w'

/-- Both end alike, with the same value where they have one, in worlds that `R` relates. -/
def Alike (R : α → W → W → Prop) (J : W → W → Prop) :
    Except ε α → W → Except ε α → W → Prop
  | .ok a, w, .ok a', w' => a = a' ∧ R a w w'
  | .error e, w, .error e', w' => e = e' ∧ J w w'
  | _, _, _, _ => False

variable {sem : Sem S E W} {J : W → W → Prop} {w w' : W}

theorem lockstep_pure {R : α → W → W → Prop} {a : α} (h : R a w w') :
    Lockstep sem (Alike R J) (pure a : Act S ε α) w (pure a) w' := .pure ⟨rfl, h⟩

theorem lockstep_throw {R : α → W → W → Prop} {e : ε} (h : J w w') :
    Lockstep sem (Alike R J) (throw e : Act S ε α) w (throw e) w' := .pure ⟨rfl, h⟩

/-- **The rule of sequence** for two runs of one program that have ended alike so far. -/
theorem Lockstep.bind {R : α → W → W → Prop} {post : Except ε β → W → Except ε β → W → Prop}
    {x : Act S ε α} {f : α → Act S ε β} (hx : x.Lockstep sem (Alike R J) w x w')
    (hok : ∀ a v v', R a v v' → (f a).Lockstep sem post v (f a) v')
    (herror : ∀ e v v', J v v' → post (.error e) v (.error e) v') :
    (x >>= f).Lockstep sem post w (x >>= f) w' := by
  unfold Lockstep
  rw [run_bind]
  refine Prog.Lockstep.bind hx ?_
  intro r v r' v' hr
  cases r with
  | ok a =>
    cases r' with
    | ok a' =>
      obtain ⟨rfl, hR⟩ := hr
      exact hok a v v' hR
    | error e => exact hr.elim
  | error e =>
    cases r' with
    | ok a => exact hr.elim
    | error e' =>
      obtain ⟨rfl, hJ⟩ := hr
      exact .pure (herror e v v' hJ)

theorem Lockstep.mapResult {ε' : Type} {R : α → W → W → Prop}
    {post : Except ε' β → W → Except ε' β → W → Prop} {x : Act S ε α}
    {f : Except ε α → Except ε' β} (hx : x.Lockstep sem (Alike R J) w x w')
    (hok : ∀ a v v', R a v v' → post (f (.ok a)) v (f (.ok a)) v')
    (herror : ∀ e v v', J v v' → post (f (.error e)) v (f (.error e)) v') :
    (x.mapResult f).Lockstep sem post w (x.mapResult f) w' := by
  refine Prog.Lockstep.bind hx ?_
  intro r v r' v' hr
  cases r with
  | ok a =>
    cases r' with
    | ok a' =>
      obtain ⟨rfl, hR⟩ := hr
      exact .pure (hok a v v' hR)
    | error e => exact hr.elim
  | error e =>
    cases r' with
    | ok a => exact hr.elim
    | error e' =>
      obtain ⟨rfl, hJ⟩ := hr
      exact .pure (herror e v v' hJ)

/-- Nothing is asked. -/
theorem lockstep_ofExcept {R : α → W → W → Prop} {r : Except ε α} (h : J w w')
    (hok : ∀ a, r = .ok a → R a w w') :
    (ofExcept r : Act S ε α).Lockstep sem (Alike R J) w (ofExcept r) w' := by
  cases r with
  | ok a => exact .pure ⟨rfl, hok a rfl⟩
  | error e => exact .pure ⟨rfl, h⟩

theorem lockstep_failIf {R : Unit → W → W → Prop} {c : Prop} [Decidable c] {e : ε} (h : J w w')
    (hok : ¬ c → R () w w') :
    (failIf c e : Act S ε Unit).Lockstep sem (Alike R J) w (failIf c e) w' := by
  unfold failIf
  by_cases hc : c
  · rw [if_pos hc]
    exact lockstep_throw h
  · rw [if_neg hc]
    exact lockstep_pure (hok hc)

end Act

end Interleave
