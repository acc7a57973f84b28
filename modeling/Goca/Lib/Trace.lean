import Goca.Lib.Pool

/-!
# What a program may ask, given what it has seen

The most general protocol: its state is the program's own trace, every statement it asked with the
answer it got. `Prog.Traced may post` says that each statement a program asks is allowed by the
trace before it, and that what the program returns fits the trace it ends with, whatever the
answers are. It is a property of the program's text alone.

`Pool.run_traced` carries it to interleavings: in the history of any schedule, each event is
allowed by the events of its own thread before it. What the answers mean is the world's part, and
is proved where the world is known.
-/

set_option autoImplicit false

namespace Interleave

variable {S : Sig} {α β E W ε ε' : Type}

/-- Nothing stands between a list and its next entry. -/
theorem eq_of_prefixes {T : Type} {l l' : List T} {a b : T} (h : l <+: l')
    (h' : l' ++ [a] <+: l ++ [b]) : l' = l ∧ a = b := by
  have hlength := h'.length_le
  simp only [List.length_append, List.length_singleton] at hlength
  obtain rfl := (h.eq_of_length_le (by omega))
  exact ⟨rfl, by simpa using List.append_cancel_left (h'.eq_of_length (by simp))⟩

/-- What one program asked, with the answers it got, oldest first. -/
abbrev Trace (S : Sig) := List ((s : S.Stmt) × S.Ans s)

/-- The protocol whose state is the trace. -/
def Protocol.traced (may : Trace S → S.Stmt → Prop) : Protocol S where
  State := Trace S
  may := may
  next q s x := q ++ [⟨s, x⟩]

/-- From trace `q` on, every statement is allowed by the trace before it, and the result fits the
trace at the end. -/
def Prog.Traced (may : Trace S → S.Stmt → Prop) (post : Trace S → α → Prop) (p : Prog S α)
    (q : Trace S) : Prop := p.Obeys (.traced may) post q

namespace Prog

variable {may may' : Trace S → S.Stmt → Prop} {post post' : Trace S → α → Prop}

theorem traced_pure {a : α} {q : Trace S} : (Prog.pure a).Traced may post q ↔ post q a :=
  obeys_pure (π := .traced may) post a q

theorem traced_ask {s : S.Stmt} {k : S.Ans s → Prog S α} {q : Trace S} :
    (Prog.ask s k).Traced may post q ↔
      may q s ∧ ∀ x, (k x).Traced may post (q ++ [⟨s, x⟩]) :=
  obeys_ask (π := .traced may) post s k q

/-- A program that is allowed less and promises more is also allowed more and promises less. -/
theorem Traced.mono {p : Prog S α} {q : Trace S} (hmay : ∀ q s, may q s → may' q s)
    (hpost : ∀ q a, post q a → post' q a) (h : p.Traced may post q) : p.Traced may' post' q := by
  induction p generalizing q with
  | pure a => exact traced_pure.mpr (hpost q a (traced_pure.mp h))
  | ask s k ih =>
    obtain ⟨hs, hk⟩ := traced_ask.mp h
    exact traced_ask.mpr ⟨hmay q s hs, fun x => ih x (hk x)⟩

/-- The trace at the end extends the trace at the start. -/
theorem Traced.extends {p : Prog S α} {q : Trace S} (h : p.Traced may post q) :
    p.Traced may (fun q' a => q <+: q' ∧ post q' a) q := by
  induction p generalizing q with
  | pure a => exact traced_pure.mpr ⟨List.prefix_rfl, traced_pure.mp h⟩
  | ask s k ih =>
    obtain ⟨hs, hk⟩ := traced_ask.mp h
    refine traced_ask.mpr ⟨hs, fun x => ?_⟩
    refine (ih x (hk x)).mono (fun _ _ => id) fun q' a ⟨hq, ha⟩ => ⟨?_, ha⟩
    exact (List.prefix_append q _).trans hq

/-- **The rule of sequence.** -/
theorem Traced.bind {mid : Trace S → α → Prop} {post : Trace S → β → Prop} {p : Prog S α}
    {f : α → Prog S β} {q : Trace S} (hp : p.Traced may mid q)
    (hf : ∀ q' a, q <+: q' → mid q' a → (f a).Traced may post q') :
    (p.bind f).Traced may post q :=
  Obeys.bind (π := .traced may) hp.extends fun q' a ⟨hq, ha⟩ => hf q' a hq ha

/-- Where everything is allowed, every program is traced. -/
theorem traced_any (p : Prog S α) (q : Trace S) :
    p.Traced (fun _ _ => True) (fun q' _ => q <+: q') q := by
  induction p generalizing q with
  | pure a => exact traced_pure.mpr List.prefix_rfl
  | ask s k ih =>
    refine traced_ask.mpr ⟨trivial, fun x => ?_⟩
    exact (ih x _).mono (fun _ _ => id) fun q' a hq => (List.prefix_append q _).trans hq

/-- Two accounts of one program hold together. -/
theorem Traced.and {p : Prog S α} {q : Trace S} (h : p.Traced may post q)
    (h' : p.Traced may' post' q) :
    p.Traced (fun q s => may q s ∧ may' q s) (fun q a => post q a ∧ post' q a) q := by
  induction p generalizing q with
  | pure a => exact traced_pure.mpr ⟨traced_pure.mp h, traced_pure.mp h'⟩
  | ask s k ih =>
    obtain ⟨hs, hk⟩ := traced_ask.mp h
    obtain ⟨hs', hk'⟩ := traced_ask.mp h'
    exact traced_ask.mpr ⟨⟨hs, hs'⟩, fun x => ih x (hk x) (hk' x)⟩

/-- What every allowed statement keeps of the trace holds all along. -/
theorem Traced.keeps {J : Trace S → Prop} {p : Prog S α} {q : Trace S} (h : p.Traced may post q)
    (hJ : ∀ q s x, J q → may q s → J (q ++ [⟨s, x⟩])) (hq : J q) :
    p.Traced (fun q s => may q s ∧ J q) (fun q a => post q a ∧ J q) q := by
  induction p generalizing q with
  | pure a => exact traced_pure.mpr ⟨traced_pure.mp h, hq⟩
  | ask s k ih =>
    obtain ⟨hs, hk⟩ := traced_ask.mp h
    exact traced_ask.mpr ⟨⟨hs, hq⟩, fun x => ih x (hk x) (hJ q s x hq hs)⟩

/-- A program's trace only grows. -/
theorem traced_within (p : Prog S α) (q : Trace S) :
    p.Traced (fun q' _ => q <+: q') (fun q' _ => q <+: q') q :=
  ((traced_any p q).keeps (J := (q <+: ·)) (fun _ _ _ h _ => h.trans (List.prefix_append _ _))
    List.prefix_rfl).mono (fun _ _ h => h.2) fun _ _ h => h.2

end Prog

/-! ## Actions -/

namespace Act

/-- An action is traced when its program is and a returned value fits the trace; an error promises
nothing. -/
def Traced (may : Trace S → S.Stmt → Prop) (ok : Trace S → α → Prop) (x : Act S ε α)
    (q : Trace S) : Prop :=
  x.run.Traced may (fun q r => ∀ a, r = .ok a → ok q a) q

variable {may may' : Trace S → S.Stmt → Prop} {ok ok' : Trace S → α → Prop} {q : Trace S}

theorem Traced.mono {x : Act S ε α} (hok : ∀ q a, ok q a → ok' q a) (h : x.Traced may ok q) :
    x.Traced may ok' q :=
  Prog.Traced.mono (fun _ _ => id) (fun q _ hr a ha => hok q a (hr a ha)) h

/-- The trace at the end extends the trace at the start. -/
theorem Traced.extends {x : Act S ε α} (h : x.Traced may ok q) :
    x.Traced may (fun q' a => q <+: q' ∧ ok q' a) q :=
  (Prog.Traced.extends h).mono (fun _ _ => id) fun _ _ ⟨hq, hr⟩ a ha => ⟨hq, hr a ha⟩

/-- What holds of every longer trace is a promise of every action. -/
theorem traced_any (x : Act S ε α) (h : ∀ q' a, q <+: q' → ok q' a) :
    x.Traced (fun _ _ => True) ok q :=
  (Prog.traced_any x.run q).mono (fun _ _ => id) fun q' _ hq a _ => h q' a hq

theorem traced_pure {a : α} (h : ok q a) : (pure a : Act S ε α).Traced may ok q := by
  refine Prog.traced_pure.mpr ?_
  rintro _ ⟨⟩
  exact h

theorem traced_throw {e : ε} : (throw e : Act S ε α).Traced may ok q := by
  refine Prog.traced_pure.mpr ?_
  rintro _ ⟨⟩

theorem traced_failIf {c : Prop} [Decidable c] {e : ε} {ok : Trace S → Unit → Prop}
    (h : ¬ c → ok q ()) : (failIf c e : Act S ε Unit).Traced may ok q := by
  unfold failIf
  split
  · exact traced_throw
  · next hc => exact traced_pure (h hc)

theorem traced_ofExcept {r : Except ε α} (h : ∀ a, r = .ok a → ok q a) :
    (ofExcept r : Act S ε α).Traced may ok q := Prog.traced_pure.mpr h

/-- After a computation what follows rests on its result. -/
theorem traced_bind_ofExcept {ok : Trace S → β → Prop} {r : Except ε α} {f : α → Act S ε β}
    (hf : ∀ a, r = .ok a → (f a).Traced may ok q) : (ofExcept r >>= f).Traced may ok q := by
  cases r with
  | error e => exact traced_throw
  | ok a => exact hf a rfl

theorem traced_ite {c : Prop} [Decidable c] {x y : Act S ε α} (hx : c → x.Traced may ok q)
    (hy : ¬ c → y.Traced may ok q) : (if c then x else y).Traced may ok q := by
  by_cases hc : c
  · rw [if_pos hc]; exact hx hc
  · rw [if_neg hc]; exact hy hc

/-- **The rule of sequence** for actions. -/
theorem Traced.bind {m : Trace S → α → Prop} {ok : Trace S → β → Prop} {x : Act S ε α}
    {f : α → Act S ε β} (hx : x.Traced may m q)
    (hf : ∀ q' a, q <+: q' → m q' a → (f a).Traced may ok q') :
    (x >>= f).Traced may ok q := by
  unfold Traced
  rw [run_bind]
  refine Prog.Traced.bind hx fun q' r hq hr => ?_
  cases r with
  | ok a => exact hf q' a hq (hr a rfl)
  | error e => exact traced_throw

/-- The rule of sequence where something is promised of errors too. -/
theorem traced_run_bind {mid : Trace S → Except ε α → Prop} {post : Trace S → Except ε β → Prop}
    {x : Act S ε α} {f : α → Act S ε β} (hx : x.run.Traced may mid q)
    (hf : ∀ q' a, q <+: q' → mid q' (.ok a) → (f a).run.Traced may post q')
    (herror : ∀ q' e, q <+: q' → mid q' (.error e) → post q' (.error e)) :
    (x >>= f).run.Traced may post q := by
  rw [run_bind]
  refine Prog.Traced.bind hx fun q' r hq hr => ?_
  cases r with
  | ok a => exact hf q' a hq hr
  | error e => exact Prog.traced_pure.mpr (herror q' e hq hr)

/-- The rule of sequence after a check, where something is promised of its failure. -/
theorem traced_run_failIf_bind {post : Trace S → Except ε β → Prop} {c : Prop} [Decidable c]
    {e : ε} {f : Unit → Act S ε β} (hfails : c → post q (.error e))
    (hf : ¬ c → (f ()).run.Traced may post q) : (failIf c e >>= f).run.Traced may post q := by
  unfold failIf
  split
  · next hc => exact Prog.traced_pure.mpr (hfails hc)
  · next hc => exact hf hc

/-- The rule of sequence after an action whose error is kept as a value. -/
theorem traced_run_bind_attempt {mid : Trace S → Except ε α → Prop}
    {post : Trace S → Except ε' β → Prop} {x : Act S ε α} {f : Except ε α → Act S ε' β}
    (hx : x.run.Traced may mid q)
    (hf : ∀ q' r, q <+: q' → mid q' r → (f r).run.Traced may post q') :
    (x.attempt >>= f).run.Traced may post q := by
  rw [run_bind, run_attempt, Prog.bind_assoc]
  exact hx.bind hf

/-- What is promised of an action, of its mapped outcome. -/
theorem traced_run_mapError {mid : Trace S → Except ε α → Prop}
    {post : Trace S → Except ε' α → Prop} {f : ε → ε'} {x : Act S ε α}
    (hx : x.run.Traced may mid q) (hpost : ∀ q' r, mid q' r → post q' (r.mapError f)) :
    (x.mapError f).run.Traced may post q :=
  Prog.Traced.bind hx fun q' r _ hr => Prog.traced_pure.mpr (hpost q' r hr)

/-- Where everything is allowed, an action of which nothing is promised is passed over. -/
theorem traced_any_bind {ok : Trace S → β → Prop} {x : Act S ε α} {f : α → Act S ε β}
    (hf : ∀ q' a, q <+: q' → (f a).Traced (fun _ _ => True) ok q') :
    (x >>= f).Traced (fun _ _ => True) ok q :=
  (traced_any x fun _ _ _ => trivial).bind fun q' a hq (_ : True) => hf q' a hq

theorem Traced.mapResult {f : Except ε α → Except ε' β} {ok : Trace S → β → Prop}
    {x : Act S ε α} (hx : x.Traced may ok' q)
    (hf : ∀ q' r b, q <+: q' → (∀ a, r = .ok a → ok' q' a) → f r = .ok b → ok q' b) :
    (x.mapResult f).Traced may ok q :=
  Prog.Traced.bind hx fun q' r hq hr => Prog.traced_pure.mpr fun b hb => hf q' r b hq hr hb

/-- A caller that keeps the error as a value may rely on what is promised of it. -/
theorem traced_attempt {post : Trace S → Except ε α → Prop} {x : Act S ε α}
    (hx : x.run.Traced may post q) :
    (x.attempt : Act S ε' (Except ε α)).Traced may post q :=
  Prog.Traced.bind hx fun q' r _ hr => Prog.traced_pure.mpr fun b hb => by cases hb; exact hr

theorem Traced.attempt {ok : Trace S → Except ε α → Prop} {x : Act S ε α}
    (hx : x.Traced may ok' q) (hf : ∀ q' r, q <+: q' → (∀ a, r = .ok a → ok' q' a) → ok q' r) :
    (x.attempt : Act S ε' (Except ε α)).Traced may ok q :=
  hx.mapResult fun q' r b hq hr hb => by cases hb; exact hf q' r hq hr

theorem Traced.mapError {f : ε → ε'} {x : Act S ε α} (hx : x.Traced may ok q) :
    (x.mapError f).Traced may ok q := by
  refine Traced.mapResult hx fun q' r b _ hr hb => ?_
  cases r with
  | ok a => cases hb; exact hr _ rfl
  | error e => cases hb

/-- What becomes of the outcome of an action whose error is wrapped. -/
theorem Traced.run_mapError {f : ε → ε'} {x : Act S ε α} (hx : x.Traced may ok q) :
    (x.mapError f).run.Traced may
      (fun q r => (∀ a, r = .ok a → ok q a) ∧ ∀ e, r = .error e → ∃ e', e = f e') q := by
  refine Prog.Traced.bind hx fun q' r _ hr => Prog.traced_pure.mpr ?_
  cases r with
  | ok a =>
    refine ⟨?_, by rintro e ⟨⟩⟩
    rintro b ⟨⟩
    exact hr a rfl
  | error e' =>
    refine ⟨by rintro b ⟨⟩, ?_⟩
    rintro e ⟨⟩
    exact ⟨e', rfl⟩

end Act

/-! ## Footprints

A property of statements that does not depend on the trace: what a program may ask at all. -/

/-- Every statement the program can ask, whatever it is answered, satisfies `P`. -/
inductive Prog.Uses (P : S.Stmt → Prop) : Prog S α → Prop
  | pure (a : α) : Prog.Uses P (.pure a)
  | ask {s : S.Stmt} {k : S.Ans s → Prog S α} (h : P s) (hk : ∀ x, Prog.Uses P (k x)) :
      Prog.Uses P (.ask s k)

namespace Prog

variable {P P' : S.Stmt → Prop}

theorem Uses.mono (h : ∀ s, P s → P' s) {p : Prog S α} (hp : p.Uses P) : p.Uses P' := by
  induction hp with
  | pure a => exact .pure a
  | ask hs _ ih => exact .ask (h _ hs) ih

theorem Uses.bind {p : Prog S α} {f : α → Prog S β} (hp : p.Uses P) (hf : ∀ a, (f a).Uses P) :
    (p.bind f).Uses P := by
  induction hp with
  | pure a => exact hf a
  | ask hs _ ih => exact .ask hs ih

/-- A footprint bounds what a trace allows. -/
theorem Uses.traced {p : Prog S α} {q : Trace S} (hp : p.Uses P) :
    p.Traced (fun _ => P) (fun _ _ => True) q := by
  induction hp generalizing q with
  | pure a => exact traced_pure.mpr trivial
  | ask hs _ ih => exact traced_ask.mpr ⟨hs, fun x => ih x⟩

/-- What the footprint keeps of the trace holds at the end. -/
theorem Uses.traced_keeps {may : Trace S → S.Stmt → Prop} {J : Trace S → Prop} {p : Prog S α}
    {q : Trace S} (hp : p.Uses P) (hmay : ∀ q s, J q → P s → may q s)
    (hJ : ∀ q s x, J q → P s → J (q ++ [⟨s, x⟩])) (h : J q) :
    p.Traced may (fun q' _ => J q') q := by
  induction hp generalizing q with
  | pure a => exact traced_pure.mpr h
  | ask hs _ ih => exact traced_ask.mpr ⟨hmay q _ h hs, fun x => ih x (hJ q _ x h hs)⟩

/-- A program is traced where its footprint is allowed by every longer trace. -/
theorem Uses.traced_of {may : Trace S → S.Stmt → Prop} {post : Trace S → α → Prop} {p : Prog S α}
    {q : Trace S} (hp : p.Uses P) (hmay : ∀ q' s, q <+: q' → P s → may q' s)
    (hpost : ∀ q' a, post q' a) : p.Traced may post q := by
  induction hp generalizing q with
  | pure a => exact traced_pure.mpr (hpost q a)
  | ask hs _ ih =>
    refine traced_ask.mpr ⟨hmay q _ List.prefix_rfl hs, fun x => ih x fun q' s hq hs => ?_⟩
    exact hmay q' s ((List.prefix_append q _).trans hq) hs

/-- What a footprint keeps of the trace holds at the end, beside what the trace says. -/
theorem Traced.and_keeps {may : Trace S → S.Stmt → Prop} {post : Trace S → α → Prop}
    {J : Trace S → Prop} {p : Prog S α} {q : Trace S} (ht : p.Traced may post q) (hp : p.Uses P)
    (hJ : ∀ q s x, J q → P s → J (q ++ [⟨s, x⟩])) (h : J q) :
    p.Traced may (fun q' a => post q' a ∧ J q') q := by
  induction hp generalizing q with
  | pure a => exact traced_pure.mpr ⟨traced_pure.mp ht, h⟩
  | ask hs _ ih =>
    obtain ⟨hmay, hk⟩ := traced_ask.mp ht
    exact traced_ask.mpr ⟨hmay, fun x => ih x (hk x) (hJ q _ x h hs)⟩

/-- A footprint and a trace property restrict a program together. -/
theorem Traced.and_uses {may : Trace S → S.Stmt → Prop} {post : Trace S → α → Prop}
    {p : Prog S α} {q : Trace S} (h : p.Traced may post q) (hp : p.Uses P) :
    p.Traced (fun q s => may q s ∧ P s) post q := by
  induction hp generalizing q with
  | pure a => exact traced_pure.mpr (traced_pure.mp h)
  | ask hs _ ih =>
    obtain ⟨hmay, hk⟩ := traced_ask.mp h
    exact traced_ask.mpr ⟨⟨hmay, hs⟩, fun x => ih x (hk x)⟩

end Prog

namespace Act

/-- The footprint of an action. -/
def Uses (P : S.Stmt → Prop) (x : Act S ε α) : Prop := x.run.Uses P

variable {P P' : S.Stmt → Prop}

theorem Uses.mono (h : ∀ s, P s → P' s) {x : Act S ε α} (hx : x.Uses P) : x.Uses P' :=
  Prog.Uses.mono h hx

theorem uses_pure (a : α) : (pure a : Act S ε α).Uses P := .pure _

theorem uses_throw (e : ε) : (throw e : Act S ε α).Uses P := .pure _

theorem uses_ofExcept (r : Except ε α) : (ofExcept r : Act S ε α).Uses P := .pure r

theorem uses_failIf (c : Prop) [Decidable c] (e : ε) : (failIf c e : Act S ε Unit).Uses P := by
  unfold failIf
  split
  · exact uses_throw e
  · exact uses_pure ()

/-- After a check what is asked rests on the check. -/
theorem uses_bind_failIf {c : Prop} [Decidable c] {e : ε} {f : Unit → Act S ε α}
    (hf : ¬ c → (f ()).Uses P) : (failIf c e >>= f).Uses P := by
  unfold failIf
  split
  · exact uses_throw e
  · next hc => exact hf hc

/-- After a computation what is asked rests on its result. -/
theorem uses_bind_ofExcept {r : Except ε β} {f : β → Act S ε α}
    (hf : ∀ b, r = .ok b → (f b).Uses P) : (ofExcept r >>= f).Uses P := by
  cases r with
  | error e => exact uses_throw e
  | ok b => exact hf b rfl

theorem uses_ite {c : Prop} [Decidable c] {x y : Act S ε α} (hx : c → x.Uses P)
    (hy : ¬ c → y.Uses P) : (if c then x else y).Uses P := by
  by_cases hc : c
  · rw [if_pos hc]; exact hx hc
  · rw [if_neg hc]; exact hy hc

theorem Uses.bind {x : Act S ε α} {f : α → Act S ε β} (hx : x.Uses P)
    (hf : ∀ a, (f a).Uses P) : (x >>= f).Uses P := by
  unfold Uses
  rw [run_bind]
  refine Prog.Uses.bind hx fun r => ?_
  cases r with
  | ok a => exact hf a
  | error e => exact .pure _

theorem Uses.mapResult {x : Act S ε α} (hx : x.Uses P) (f : Except ε α → Except ε' β) :
    (x.mapResult f).Uses P := Prog.Uses.bind hx fun _ => .pure _

theorem Uses.attempt {x : Act S ε α} (hx : x.Uses P) :
    (x.attempt : Act S ε' (Except ε α)).Uses P := hx.mapResult _

theorem Uses.mapError {x : Act S ε α} (hx : x.Uses P) (f : ε → ε') : (x.mapError f).Uses P :=
  hx.mapResult _

/-- What a footprint keeps of the trace is a promise of every action with that footprint. -/
theorem Uses.keeps {may : Trace S → S.Stmt → Prop} {J : Trace S → Prop} {q : Trace S}
    {x : Act S ε α} (hx : x.Uses P) (hmay : ∀ q s, J q → P s → may q s)
    (hJ : ∀ q s x, J q → P s → J (q ++ [⟨s, x⟩])) (h : J q) :
    x.Traced may (fun q' _ => J q') q :=
  (Prog.Uses.traced_keeps hx hmay hJ h).mono (fun _ _ => id) fun _ _ h _ _ => h

/-- What a footprint keeps of the trace is promised beside what the trace says. -/
theorem Traced.and_keeps {may : Trace S → S.Stmt → Prop} {ok : Trace S → α → Prop}
    {J : Trace S → Prop} {q : Trace S} {x : Act S ε α} (ht : x.Traced may ok q) (hx : x.Uses P)
    (hJ : ∀ q s x, J q → P s → J (q ++ [⟨s, x⟩])) (h : J q) :
    x.Traced may (fun q' a => ok q' a ∧ J q') q :=
  (Prog.Traced.and_keeps ht hx hJ h).mono (fun _ _ => id) fun _ _ hr a ha => ⟨hr.1 a ha, hr.2⟩

end Act

/-! ## What was asked after what -/

/-- After a trace of which something held, a statement was asked and answered. -/
def After (P : Trace S → Prop) (s : S.Stmt) (x : S.Ans s) (q : Trace S) : Prop :=
  ∃ q₀, P q₀ ∧ q₀ ++ [⟨s, x⟩] <+: q

theorem After.extends {P : Trace S → Prop} {s : S.Stmt} {x : S.Ans s} {q q' : Trace S}
    (h : After P s x q) (hq : q <+: q') : After P s x q' := by
  obtain ⟨q₀, hP, hq₀⟩ := h
  exact ⟨q₀, hP, hq₀.trans hq⟩

theorem after_snoc {P : Trace S → Prop} {q : Trace S} (h : P q) (s : S.Stmt) (x : S.Ans s) :
    After P s x (q ++ [⟨s, x⟩]) := ⟨q, h, List.prefix_rfl⟩

/-! ## Interleavings -/

/-- The trace of one thread in a history. -/
def own (t : Nat) (h : List (Event S)) : Trace S :=
  (h.filter (·.thread == t)).map fun e => ⟨e.stmt, e.ans⟩

@[simp] theorem own_nil (t : Nat) : own t ([] : List (Event S)) = [] := rfl

theorem own_append (t : Nat) (h h' : List (Event S)) : own t (h ++ h') = own t h ++ own t h' := by
  rw [own, List.filter_append, List.map_append]
  rfl

theorem own_snoc_self (t : Nat) (h : List (Event S)) (s : S.Stmt) (x : S.Ans s) :
    own t (h ++ [⟨t, s, x⟩]) = own t h ++ [⟨s, x⟩] := by
  rw [own_append]
  simp [own]

theorem own_snoc_of_ne {t u : Nat} (hne : u ≠ t) (h : List (Event S)) (s : S.Stmt)
    (x : S.Ans s) : own t (h ++ [⟨u, s, x⟩]) = own t h := by
  rw [own_append]
  simp [own, hne]

/-- The trace of all threads together. -/
def steps (h : List (Event S)) : Trace S := h.map fun e => ⟨e.stmt, e.ans⟩

theorem steps_append (h h' : List (Event S)) : steps (h ++ h') = steps h ++ steps h' :=
  List.map_append

theorem mem_steps {h : List (Event S)} {y : (s : S.Stmt) × S.Ans s} :
    y ∈ steps h ↔ ∃ t, y ∈ own t h := by
  constructor
  · intro hy
    obtain ⟨e, he, rfl⟩ := List.mem_map.mp hy
    exact ⟨e.thread, List.mem_map.mpr ⟨e, List.mem_filter.mpr ⟨he, beq_self_eq_true _⟩, rfl⟩⟩
  · rintro ⟨t, hy⟩
    obtain ⟨e, he, rfl⟩ := List.mem_map.mp hy
    exact List.mem_map.mpr ⟨e, (List.mem_filter.mp he).1, rfl⟩

/-- What only one thread contributes to a trace, it contributes in its own. -/
theorem filter_filterMap_own {T : Type} (f : ((s : S.Stmt) × S.Ans s) → Option T) (p : T → Bool)
    {t : Nat} {h : List (Event S)}
    (hown : ∀ e ∈ h, ∀ r, f ⟨e.stmt, e.ans⟩ = some r → p r = true → e.thread = t) :
    ((steps h).filterMap f).filter p = ((own t h).filterMap f).filter p := by
  induction h with
  | nil => rfl
  | cons e h ih =>
    have ih := ih fun e' he' => hown e' (List.mem_cons_of_mem _ he')
    have hsteps : steps (e :: h) = [⟨e.stmt, e.ans⟩] ++ steps h := rfl
    have howned : own t (e :: h) = own t [e] ++ own t h := own_append t [e] h
    rw [hsteps, howned, List.filterMap_append, List.filterMap_append, List.filter_append,
      List.filter_append, ih]
    congr 1
    by_cases he : e.thread = t
    · simp [own, he]
    · have hnone : own t [e] = [] := by simp [own, he]
      rw [hnone, List.filterMap_nil, List.filter_nil, List.filter_eq_nil_iff]
      intro r hr hp
      obtain ⟨y, hy, hfy⟩ := List.mem_filterMap.mp hr
      rw [List.mem_singleton.mp hy] at hfy
      exact he (hown e List.mem_cons_self r hfy hp)

/-- A thread's step is an event of the history. -/
theorem mem_own {t : Nat} {h : List (Event S)} {s : S.Stmt} {x : S.Ans s} :
    (⟨s, x⟩ : (s : S.Stmt) × S.Ans s) ∈ own t h ↔ (⟨t, s, x⟩ : Event S) ∈ h := by
  simp only [own, List.mem_map, List.mem_filter, beq_iff_eq]
  constructor
  · rintro ⟨⟨_, _, _⟩, ⟨he, rfl⟩, heq⟩
    cases heq
    exact he
  · exact fun he => ⟨_, ⟨he, rfl⟩, rfl⟩

/-- Each event of a history is allowed by the earlier events of its own thread. -/
def Lawful (may : Nat → Trace S → S.Stmt → Prop) (h : List (Event S)) : Prop :=
  ∀ h₁ e h₂, h = h₁ ++ e :: h₂ → may e.thread (own e.thread h₁) e.stmt

theorem Lawful.snoc {may : Nat → Trace S → S.Stmt → Prop} {h : List (Event S)} {e : Event S}
    (hl : Lawful may h) (he : may e.thread (own e.thread h) e.stmt) : Lawful may (h ++ [e]) := by
  intro h₁ e' h₂ heq
  rcases List.eq_nil_or_concat h₂ with rfl | ⟨h₃, e'', hh⟩
  · obtain ⟨rfl, hee⟩ := List.append_inj' heq rfl
    cases hee
    exact he
  · rw [hh, List.concat_eq_append, ← List.cons_append, ← List.append_assoc] at heq
    exact hl h₁ e' h₃ (List.append_inj' heq rfl).1

namespace Pool

/-- **What a footprint keeps of the world holds after every schedule** of threads with that
footprint. -/
theorem run_uses {sem : Sem S E W} {P : S.Stmt → Prop} {J : W → Prop}
    (hJ : ∀ e w s x w', P s → J w → sem e w s = some (x, w') → J w') {σ : Pool S α W}
    (hσ : ∀ p ∈ σ.threads, p.Uses P) (h : J σ.world) (moves : Schedule E) :
    J (σ.run sem moves).world := by
  refine (run_induction (P := fun σ => (∀ p ∈ σ.threads, p.Uses P) ∧ J σ.world)
    (fun σ t e hσ => ?_) ⟨hσ, h⟩ moves).2
  obtain ⟨huses, hworld⟩ := hσ
  obtain hs | ⟨s, k, x, w, ht, hx, hs⟩ := step_cases sem σ t e
  · rw [hs]
    exact ⟨huses, hworld⟩
  · rw [hs]
    cases huses _ (List.mem_of_getElem? ht) with
    | ask hmay hrest =>
      refine ⟨fun p hp => ?_, hJ e σ.world s x w hmay hworld hx⟩
      rcases List.mem_or_eq_of_mem_set hp with hp | rfl
      · exact huses p hp
      · exact hrest x

/-- Every thread of a pool is traced from its own part of the history on. -/
def Traced (may : Nat → Trace S → S.Stmt → Prop) (post : Nat → Trace S → α → Prop)
    (σ : Pool S α W) : Prop :=
  ∀ t (p : Prog S α), σ.threads[t]? = some p → Prog.Traced (may t) (post t) p (own t σ.history)

/-- **Traces of interleavings**: whatever the schedule, each event of the history is allowed by the
earlier events of its thread, and every thread is still traced. -/
theorem run_traced {sem : Sem S E W} {may : Nat → Trace S → S.Stmt → Prop}
    {post : Nat → Trace S → α → Prop} {σ : Pool S α W} (hl : Lawful may σ.history)
    (ht : σ.Traced may post) (moves : Schedule E) :
    Lawful may (σ.run sem moves).history ∧ (σ.run sem moves).Traced may post := by
  refine run_induction (P := fun σ => Lawful may σ.history ∧ σ.Traced may post) ?_ ⟨hl, ht⟩ moves
  rintro σ t e ⟨hl, ht⟩
  obtain hs | ⟨s, k, x, w, hget, _, hs⟩ := step_cases sem σ t e
  · rw [hs]; exact ⟨hl, ht⟩
  · rw [hs]
    have hask := Prog.traced_ask.mp (ht t _ hget)
    refine ⟨hl.snoc (e := ⟨t, s, x⟩) hask.1, fun u p hp => ?_⟩
    have hlen : t < σ.threads.length := (List.getElem?_eq_some_iff.mp hget).1
    rw [List.getElem?_set] at hp
    by_cases htu : t = u
    · subst htu
      rw [if_pos rfl, if_pos hlen] at hp
      cases hp
      rw [own_snoc_self]
      exact hask.2 x
    · rw [if_neg htu] at hp
      rw [own_snoc_of_ne htu]
      exact ht u p hp

/-- The threads of a pool that has not moved. -/
theorem traced_init {may : Nat → Trace S → S.Stmt → Prop} {post : Nat → Trace S → α → Prop}
    {w : W} {ps : List (Prog S α)}
    (h : ∀ t (p : Prog S α), ps[t]? = some p → Prog.Traced (may t) (post t) p []) :
    (init w ps).Traced may post := h

/-- What a thread asks next is allowed by its part of the history. -/
theorem next_allowed {may : Nat → Trace S → S.Stmt → Prop} {post : Nat → Trace S → α → Prop}
    {σ : Pool S α W} (h : σ.Traced may post) {t : Nat} {s : S.Stmt} (hs : σ.next? t = some s) :
    may t (own t σ.history) s := by
  obtain ⟨k, hk⟩ := next?_eq_some.mp hs
  exact (Prog.traced_ask.mp (h t _ hk)).1

/-- A thread that asks nothing more has come to an end that it promises. -/
theorem ended {may : Nat → Trace S → S.Stmt → Prop} {post : Nat → Trace S → α → Prop}
    {σ : Pool S α W} (h : σ.Traced may post) {t : Nat} (ht : t < σ.threads.length)
    (hnone : σ.next? t = none) : ∃ a, post t (own t σ.history) a := by
  have hget := List.getElem?_eq_getElem ht
  cases hp : σ.threads[t] with
  | pure a =>
    rw [hp] at hget
    exact ⟨a, Prog.traced_pure.mp (h t _ hget)⟩
  | ask s k =>
    rw [hp] at hget
    rw [next?_eq_some.mpr ⟨k, hget⟩] at hnone
    cases hnone

/-- What is on a thread's trace was asked at a move before which the thread had the trace before
it. -/
theorem own_origin {sem : Sem S E W} {σ : Pool S α W} {moves : Schedule E} {n : Nat}
    (hn : n ≤ moves.length) (hσ : σ.history = []) {t : Nat} {q : Trace S} {s : S.Stmt} {x : S.Ans s}
    (h : q ++ [⟨s, x⟩] <+: own t (σ.upto sem moves n).history) :
    ∃ m e, m < n ∧ AskedAt sem σ moves m t e s x ∧ own t (σ.upto sem moves m).history = q := by
  induction n with
  | zero =>
    rw [upto_zero, hσ, own_nil, List.prefix_nil] at h
    exact absurd h (by simp)
  | succ n ih =>
    obtain hs | ⟨s', x', hasked, hhist⟩ := upto_asked sem σ hn
    · rw [hs] at h
      obtain ⟨m, e, hm, h⟩ := ih (by omega) h
      exact ⟨m, e, by omega, h⟩
    · by_cases ht : moves[n].1 = t
      · rw [hhist, ht, own_snoc_self, List.prefix_concat_iff] at h
        rcases h with h | h
        · obtain ⟨rfl, hlast⟩ := List.append_inj' h rfl
          cases hlast
          rw [ht] at hasked
          exact ⟨n, _, by omega, hasked, rfl⟩
        · obtain ⟨m, e, hm, h⟩ := ih (by omega) h
          exact ⟨m, e, by omega, h⟩
      · rw [hhist, own_snoc_of_ne ht] at h
        obtain ⟨m, e, hm, h⟩ := ih (by omega) h
        exact ⟨m, e, by omega, h⟩

/-- What a thread asked after something held of its trace it asked at a move before which that
held. -/
theorem after_origin {sem : Sem S E W} {σ : Pool S α W} {moves : Schedule E} {n : Nat}
    (hn : n ≤ moves.length) (hσ : σ.history = []) {t : Nat} {P : Trace S → Prop} {s : S.Stmt}
    {x : S.Ans s} (h : After P s x (own t (σ.upto sem moves n).history)) :
    ∃ m e, m < n ∧ AskedAt sem σ moves m t e s x ∧ P (own t (σ.upto sem moves m).history) := by
  obtain ⟨q₀, hP, hq₀⟩ := h
  obtain ⟨m, e, hm, hasked, rfl⟩ := own_origin hn hσ hq₀
  exact ⟨m, e, hm, hasked, hP⟩

/-- What a thread asked is on its trace from then on. -/
theorem AskedAt.mem_own {sem : Sem S E W} {σ : Pool S α W} {moves : Schedule E} {i j t : Nat}
    {e : E} {s : S.Stmt} {x : S.Ans s} (h : AskedAt sem σ moves i t e s x) (hij : i < j) :
    (⟨s, x⟩ : (s : S.Stmt) × S.Ans s) ∈ own t (σ.upto sem moves j).history := by
  refine Interleave.mem_own.mpr ((upto_history_mono sem σ moves hij).subset ?_)
  rw [h.history]
  exact List.mem_append_right _ (List.mem_singleton_self _)

/-- A thread's trace only grows. -/
theorem own_upto_mono (sem : Sem S E W) (σ : Pool S α W) (moves : Schedule E) (t : Nat) {i j : Nat}
    (hij : i ≤ j) : own t (σ.upto sem moves i).history <+: own t (σ.upto sem moves j).history := by
  obtain ⟨h, hh⟩ := upto_history_mono sem σ moves hij
  rw [← hh, own_append]
  exact List.prefix_append _ _

theorem AskedAt.own {sem : Sem S E W} {σ : Pool S α W} {moves : Schedule E} {i t : Nat} {e : E}
    {s : S.Stmt} {x : S.Ans s} (h : AskedAt sem σ moves i t e s x) :
    own t (σ.upto sem moves (i + 1)).history = own t (σ.upto sem moves i).history ++ [⟨s, x⟩] := by
  rw [h.history, own_snoc_self]

/-- A move leaves the traces of the other threads alone. -/
theorem AskedAt.own_of_ne {sem : Sem S E W} {σ : Pool S α W} {moves : Schedule E} {i t u : Nat}
    {e : E} {s : S.Stmt} {x : S.Ans s} (h : AskedAt sem σ moves i t e s x) (hne : t ≠ u) :
    Interleave.own u (σ.upto sem moves (i + 1)).history =
      Interleave.own u (σ.upto sem moves i).history := by
  rw [h.history, own_snoc_of_ne hne]

/-- What a thread asked between two moves is on the part of its trace between them. -/
theorem AskedAt.mem_between {sem : Sem S E W} {σ : Pool S α W} {moves : Schedule E} {i j n t : Nat}
    {e e' : E} {s s' : S.Stmt} {x : S.Ans s} {x' : S.Ans s'} {q : Trace S}
    (hi : AskedAt sem σ moves i t e s x) (hj : AskedAt sem σ moves j t e' s' x') (hij : i < j)
    (hjn : j < n)
    (hq : Interleave.own t (σ.upto sem moves n).history =
      Interleave.own t (σ.upto sem moves i).history ++ [⟨s, x⟩] ++ q) :
    (⟨s', x'⟩ : (s : S.Stmt) × S.Ans s) ∈ q := by
  obtain ⟨r, hr⟩ := own_upto_mono sem σ moves t (Nat.succ_le_of_lt hij)
  obtain ⟨r', hr'⟩ := own_upto_mono sem σ moves t (Nat.succ_le_of_lt hjn)
  rw [hi.own] at hr
  rw [← hr', hj.own, ← hr, List.append_assoc _ r, List.append_assoc _ (r ++ _)] at hq
  rw [← List.append_cancel_left hq]
  simp

theorem lawful_init {may : Nat → Trace S → S.Stmt → Prop} {w : W} {ps : List (Prog S α)} :
    Lawful may (init w ps).history := by
  intro h₁ e h₂ heq
  exact absurd heq.symm (by simp [init])

end Pool

end Interleave
