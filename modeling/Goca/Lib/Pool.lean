import Goca.Lib.Prog

/-!
# Pools of interleaved programs

Any number of handlers over one shared world. A schedule names, move by move, the thread that goes
next and the environment's choice for its next statement; a thread that is never named again has
stopped. Every statement is one atomic step, so the schedules of a pool are all its interleavings.

A proof about every schedule has two halves, and they are kept apart.

- `Prog.Obeys` is the half about one program: under a `Protocol` it asks only what the protocol
  allows in the protocol's state, whatever it is answered. It is decided by the program's text.
- `Pool.run_induction` and what follows from it are the half about the world: what every statement
  keeps holds after every schedule.
-/

set_option autoImplicit false

namespace Interleave

variable {S : Sig} {α β E W : Type}

/-- One statement of one thread, with its answer. -/
structure Event (S : Sig) where
  thread : Nat
  stmt : S.Stmt
  ans : S.Ans stmt

/-- The shared world, what each thread still has to do, and what has been asked so far. -/
structure Pool (S : Sig) (α W : Type) where
  world : W
  threads : List (Prog S α)
  history : List (Event S)

namespace Pool

/-- The pool before any thread has moved. -/
def init (w : W) (ps : List (Prog S α)) : Pool S α W := ⟨w, ps, []⟩

/-- One move: thread `t` asks its next statement under the environment's choice `e`. A finished or
absent thread does not move, and neither does one whose statement does not admit the choice. -/
def step (sem : Sem S E W) (σ : Pool S α W) (t : Nat) (e : E) : Pool S α W :=
  match σ.threads[t]? with
  | some (.ask s k) =>
    match sem e σ.world s with
    | some (x, w) => ⟨w, σ.threads.set t (k x), σ.history ++ [⟨t, s, x⟩]⟩
    | none => σ
  | _ => σ

/-- A schedule: which thread moves and what the environment chooses, move by move. -/
abbrev Schedule (E : Type) := List (Nat × E)

/-- The pool after a schedule. -/
def run (sem : Sem S E W) (σ : Pool S α W) (moves : Schedule E) : Pool S α W :=
  moves.foldl (fun σ m => σ.step sem m.1 m.2) σ

@[simp] theorem run_nil (sem : Sem S E W) (σ : Pool S α W) : σ.run sem [] = σ := rfl

@[simp] theorem run_cons (sem : Sem S E W) (σ : Pool S α W) (m : Nat × E) (moves : Schedule E) :
    σ.run sem (m :: moves) = (σ.step sem m.1 m.2).run sem moves := rfl

theorem run_append (sem : Sem S E W) (σ : Pool S α W) (m₁ m₂ : Schedule E) :
    σ.run sem (m₁ ++ m₂) = (σ.run sem m₁).run sem m₂ := List.foldl_append

/-- **What a move can do**: nothing, or one statement of the thread that moved. -/
theorem step_cases (sem : Sem S E W) (σ : Pool S α W) (t : Nat) (e : E) :
    σ.step sem t e = σ ∨
      ∃ s k x w, σ.threads[t]? = some (.ask s k) ∧ sem e σ.world s = some (x, w) ∧
        σ.step sem t e = ⟨w, σ.threads.set t (k x), σ.history ++ [⟨t, s, x⟩]⟩ := by
  unfold step
  split
  next s k ht =>
    split
    next x w hx => exact .inr ⟨s, k, x, w, ht, hx, rfl⟩
    next => exact .inl rfl
  next => exact .inl rfl

/-- The move a thread makes when the environment's choice is admitted. -/
theorem step_of_ask {sem : Sem S E W} {σ : Pool S α W} {t : Nat} {e : E} {s : S.Stmt}
    {k : S.Ans s → Prog S α} {x : S.Ans s} {w : W} (ht : σ.threads[t]? = some (.ask s k))
    (hx : sem e σ.world s = some (x, w)) :
    σ.step sem t e = ⟨w, σ.threads.set t (k x), σ.history ++ [⟨t, s, x⟩]⟩ := by
  simp only [step, ht, hx]

@[simp] theorem length_threads_step (sem : Sem S E W) (σ : Pool S α W) (t : Nat) (e : E) :
    (σ.step sem t e).threads.length = σ.threads.length := by
  obtain h | ⟨s, k, x, w, _, _, h⟩ := step_cases sem σ t e
  · rw [h]
  · rw [h, List.length_set]

@[simp] theorem length_threads_run (sem : Sem S E W) (σ : Pool S α W) (moves : Schedule E) :
    (σ.run sem moves).threads.length = σ.threads.length := by
  induction moves generalizing σ with
  | nil => rfl
  | cons m moves ih => rw [run_cons, ih, length_threads_step]

/-- A property of pools that every move keeps holds after every schedule. -/
theorem run_induction {sem : Sem S E W} {P : Pool S α W → Prop}
    (move : ∀ σ t e, P σ → P (σ.step sem t e)) {σ : Pool S α W} (h : P σ) (moves : Schedule E) :
    P (σ.run sem moves) := by
  induction moves generalizing σ with
  | nil => exact h
  | cons m moves ih => exact ih (move σ m.1 m.2 h)

/-! ## Positions in a schedule -/

/-- The pool after the first `i` moves of a schedule. -/
def upto (sem : Sem S E W) (σ : Pool S α W) (moves : Schedule E) (i : Nat) : Pool S α W :=
  σ.run sem (moves.take i)

@[simp] theorem upto_zero (sem : Sem S E W) (σ : Pool S α W) (moves : Schedule E) :
    σ.upto sem moves 0 = σ := rfl

theorem upto_succ (sem : Sem S E W) (σ : Pool S α W) {moves : Schedule E} {i : Nat}
    (h : i < moves.length) :
    σ.upto sem moves (i + 1) = (σ.upto sem moves i).step sem moves[i].1 moves[i].2 := by
  rw [upto, List.take_succ_eq_append_getElem h, run_append]
  rfl

/-- Behind its end a schedule makes no moves. -/
theorem upto_succ_of_le (sem : Sem S E W) (σ : Pool S α W) {moves : Schedule E} {i : Nat}
    (h : moves.length ≤ i) : σ.upto sem moves (i + 1) = σ.upto sem moves i := by
  rw [upto, upto, List.take_of_length_le (by omega), List.take_of_length_le h]

theorem upto_length (sem : Sem S E W) (σ : Pool S α W) (moves : Schedule E) :
    σ.upto sem moves moves.length = σ.run sem moves := by rw [upto, List.take_length]

/-- What move `i` of a schedule does: nothing, or one statement of its thread. -/
theorem upto_cases (sem : Sem S E W) (σ : Pool S α W) {moves : Schedule E} {i : Nat}
    (h : i < moves.length) :
    σ.upto sem moves (i + 1) = σ.upto sem moves i ∨
      ∃ s k x w, (σ.upto sem moves i).threads[moves[i].1]? = some (.ask s k) ∧
        sem moves[i].2 (σ.upto sem moves i).world s = some (x, w) ∧
        σ.upto sem moves (i + 1) = ⟨w, (σ.upto sem moves i).threads.set moves[i].1 (k x),
          (σ.upto sem moves i).history ++ [⟨moves[i].1, s, x⟩]⟩ := by
  rw [upto_succ sem σ h]
  exact step_cases sem _ _ _

/-- The statement thread `t` asks when it moves next. -/
def next? (σ : Pool S α W) (t : Nat) : Option S.Stmt := σ.threads[t]?.bind Prog.head?

theorem next?_eq_some {σ : Pool S α W} {t : Nat} {s : S.Stmt} :
    σ.next? t = some s ↔ ∃ k, σ.threads[t]? = some (.ask s k) := by
  rw [next?, Option.bind_eq_some_iff]
  constructor
  · rintro ⟨p, hp, hs⟩
    cases p with
    | pure a => cases hs
    | ask s' k =>
      cases hs
      exact ⟨k, hp⟩
  · rintro ⟨k, hk⟩
    exact ⟨_, hk, rfl⟩

/-- A move changes what its own thread asks next, and no other thread's. -/
theorem next?_set_of_ne (w : W) (σ : Pool S α W) {t u : Nat} (h : u ≠ t) (p : Prog S α)
    (history : List (Event S)) :
    (Pool.mk w (σ.threads.set u p) history).next? t = σ.next? t := by
  unfold next?
  rw [List.getElem?_set_ne h]

/-- At move `i` thread `t` asks `s` under the environment `e` and is answered `x`. -/
structure AskedAt (sem : Sem S E W) (σ : Pool S α W) (moves : Schedule E) (i t : Nat) (e : E)
    (s : S.Stmt) (x : S.Ans s) : Prop where
  move : moves[i]? = some (t, e)
  next : (σ.upto sem moves i).next? t = some s
  exec : sem e (σ.upto sem moves i).world s = some (x, (σ.upto sem moves (i + 1)).world)

/-- A thread that asks a statement the environment admits is answered. -/
theorem AskedAt.of_next {sem : Sem S E W} {σ : Pool S α W} {moves : Schedule E} {i t : Nat} {e : E}
    {s : S.Stmt} {x : S.Ans s} {w : W} (move : moves[i]? = some (t, e))
    (next : (σ.upto sem moves i).next? t = some s)
    (exec : sem e (σ.upto sem moves i).world s = some (x, w)) : AskedAt sem σ moves i t e s x := by
  obtain ⟨hi, hmove⟩ := List.getElem?_eq_some_iff.mp move
  obtain ⟨k, hk⟩ := next?_eq_some.mp next
  refine ⟨move, next, ?_⟩
  rw [upto_succ sem σ hi, hmove, step_of_ask hk exec]
  exact exec

/-- A move leaves what the other threads ask next alone. -/
theorem AskedAt.next?_of_ne {sem : Sem S E W} {σ : Pool S α W} {moves : Schedule E} {i t u : Nat}
    {e : E} {s : S.Stmt} {x : S.Ans s} (h : AskedAt sem σ moves i t e s x) (hne : t ≠ u) :
    (σ.upto sem moves (i + 1)).next? u = (σ.upto sem moves i).next? u := by
  obtain ⟨hi, hmove⟩ := List.getElem?_eq_some_iff.mp h.move
  obtain ⟨k, hk⟩ := next?_eq_some.mp h.next
  rw [upto_succ sem σ hi, hmove, step_of_ask hk h.exec, next?_set_of_ne _ _ hne]

/-- What a move does, in terms of what was asked at it. -/
theorem upto_asked (sem : Sem S E W) (σ : Pool S α W) {moves : Schedule E} {i : Nat}
    (h : i < moves.length) :
    σ.upto sem moves (i + 1) = σ.upto sem moves i ∨
      ∃ s x, AskedAt sem σ moves i moves[i].1 moves[i].2 s x ∧
        (σ.upto sem moves (i + 1)).history =
          (σ.upto sem moves i).history ++ [⟨moves[i].1, s, x⟩] := by
  obtain hs | ⟨s, k, x, w, ht, hx, hs⟩ := upto_cases sem σ h
  · exact .inl hs
  · refine .inr ⟨s, x, ⟨List.getElem?_eq_getElem h, next?_eq_some.mpr ⟨k, ht⟩, ?_⟩, ?_⟩
    · rw [hs]; exact hx
    · rw [hs]

/-- The event that a move adds to the history. -/
theorem AskedAt.history {sem : Sem S E W} {σ : Pool S α W} {moves : Schedule E} {i t : Nat} {e : E}
    {s : S.Stmt} {x : S.Ans s} (h : AskedAt sem σ moves i t e s x) :
    (σ.upto sem moves (i + 1)).history = (σ.upto sem moves i).history ++ [⟨t, s, x⟩] := by
  obtain ⟨hi, hmove⟩ := List.getElem?_eq_some_iff.mp h.move
  obtain ⟨k, hk⟩ := next?_eq_some.mp h.next
  rw [upto_succ sem σ hi, hmove, step_of_ask hk h.exec]

/-- Two statements that a thread asks at one move are the same. -/
theorem AskedAt.stmt_unique {sem : Sem S E W} {σ : Pool S α W} {moves : Schedule E} {i t t' : Nat}
    {e e' : E} {s s' : S.Stmt} {x : S.Ans s} {x' : S.Ans s'}
    (h : AskedAt sem σ moves i t e s x) (h' : AskedAt sem σ moves i t' e' s' x') :
    t = t' ∧ s = s' := by
  obtain ⟨rfl, rfl⟩ := Prod.mk.inj (Option.some.inj (h.move.symm.trans h'.move))
  exact ⟨rfl, Option.some.inj (h.next.symm.trans h'.next)⟩

/-- A history only grows. -/
theorem upto_history_mono (sem : Sem S E W) (σ : Pool S α W) (moves : Schedule E) {i j : Nat}
    (hij : i ≤ j) : (σ.upto sem moves i).history <+: (σ.upto sem moves j).history := by
  induction hij with
  | refl => exact List.prefix_rfl
  | @step j _ ih =>
    refine ih.trans ?_
    by_cases hj : j < moves.length
    · obtain hs | ⟨s, x, _, hhist⟩ := upto_asked sem σ hj
      · simp only [hs, List.prefix_rfl]
      · rw [hhist]
        exact List.prefix_append _ _
    · simp only [upto_succ_of_le sem σ (Nat.le_of_not_lt hj), List.prefix_rfl]

/-- Every event of a history was asked at some move. -/
theorem history_origin {sem : Sem S E W} {σ : Pool S α W} {moves : Schedule E} {m : Nat}
    (hm : m ≤ moves.length) (hσ : σ.history = []) {t : Nat} {s : S.Stmt} {x : S.Ans s}
    (h : (⟨t, s, x⟩ : Event S) ∈ (σ.upto sem moves m).history) :
    ∃ i e, i < m ∧ AskedAt sem σ moves i t e s x := by
  induction m with
  | zero =>
    rw [upto_zero, hσ] at h
    exact absurd h List.not_mem_nil
  | succ m ih =>
    obtain hs | ⟨s', x', hasked, hhist⟩ := upto_asked sem σ hm
    · rw [hs] at h
      obtain ⟨i, e, hi, h⟩ := ih (by omega) h
      exact ⟨i, e, by omega, h⟩
    · rw [hhist] at h
      rcases List.mem_append.mp h with h | h
      · obtain ⟨i, e, hi, h⟩ := ih (by omega) h
        exact ⟨i, e, by omega, h⟩
      · cases List.mem_singleton.mp h
        exact ⟨m, moves[m].2, by omega, hasked⟩

/-- What holds at a move, and is kept by whatever is asked from then on, holds later. -/
theorem upto_keeps {sem : Sem S E W} {σ : Pool S α W} {moves : Schedule E} {J : Nat → W → Prop}
    {i n : Nat} (wait : ∀ j w, J j w → J (j + 1) w)
    (step : ∀ j t e s x, i ≤ j → j < n → AskedAt sem σ moves j t e s x →
      J j (σ.upto sem moves j).world → J (j + 1) (σ.upto sem moves (j + 1)).world)
    (hin : i ≤ n) (h : J i (σ.upto sem moves i).world) : J n (σ.upto sem moves n).world := by
  induction hin with
  | refl => exact h
  | @step n hin ih =>
    have hn := ih fun j t e s x hij hj => step j t e s x hij (by omega)
    by_cases hlt : n < moves.length
    · obtain hs | ⟨s, x, hasked, -⟩ := upto_asked sem σ hlt
      · rw [hs]
        exact wait n _ hn
      · exact step n _ _ s x hin (by omega) hasked hn
    · rw [upto_succ_of_le sem σ (Nat.le_of_not_lt hlt)]
      exact wait n _ hn

/-- What every statement keeps between the world before it and after it, it keeps between any two
moves. -/
theorem upto_related {sem : Sem S E W} {R : W → W → Prop} (refl : ∀ w, R w w)
    (trans : ∀ u v w, R u v → R v w → R u w)
    (step : ∀ e w s x w', sem e w s = some (x, w') → R w w') (σ : Pool S α W) {moves : Schedule E}
    {i j : Nat} (hij : i ≤ j) (hj : j ≤ moves.length) :
    R (σ.upto sem moves i).world (σ.upto sem moves j).world := by
  induction hij with
  | refl => exact refl _
  | @step j _ ih =>
    refine trans _ _ _ (ih (by omega)) ?_
    obtain hs | ⟨s, x, hasked, _⟩ := upto_asked sem σ hj
    · rw [hs]
      exact refl _
    · exact step _ _ s x _ hasked.exec

end Pool

/-! ## Protocols -/

/-- What a thread may ask in each protocol state, and how an answer moves that state. -/
structure Protocol (S : Sig) where
  State : Type
  may : State → S.Stmt → Prop
  next : State → (s : S.Stmt) → S.Ans s → State

/-- From state `q` the program asks only what the protocol allows, whatever it is answered, and
returns only what `post` admits in the state it has then reached. -/
inductive Prog.Obeys (π : Protocol S) (post : π.State → α → Prop) : Prog S α → π.State → Prop
  | pure {a : α} {q : π.State} (h : post q a) : Prog.Obeys π post (.pure a) q
  | ask {s : S.Stmt} {k : S.Ans s → Prog S α} {q : π.State} (h : π.may q s)
      (hk : ∀ x, Prog.Obeys π post (k x) (π.next q s x)) : Prog.Obeys π post (.ask s k) q

namespace Prog

variable {π : Protocol S}

@[simp] theorem obeys_pure (post : π.State → α → Prop) (a : α) (q : π.State) :
    (Prog.pure a).Obeys π post q ↔ post q a := by
  constructor
  · rintro ⟨h⟩
    exact h
  · exact .pure

theorem obeys_ask (post : π.State → α → Prop) (s : S.Stmt) (k : S.Ans s → Prog S α)
    (q : π.State) : (Prog.ask s k).Obeys π post q ↔
      π.may q s ∧ ∀ x, (k x).Obeys π post (π.next q s x) := by
  constructor
  · intro h
    cases h with
    | ask h hk => exact ⟨h, hk⟩
  · exact fun ⟨h, hk⟩ => .ask h hk

theorem obeys_bind (post : π.State → β → Prop) (p : Prog S α) (f : α → Prog S β) (q : π.State) :
    (p.bind f).Obeys π post q ↔ p.Obeys π (fun q a => (f a).Obeys π post q) q := by
  induction p generalizing q with
  | pure a => rw [pure_bind, obeys_pure]
  | ask s k ih => simp only [ask_bind, obeys_ask, ih]

theorem Obeys.mono {post post' : π.State → α → Prop} (h : ∀ q a, post q a → post' q a)
    {p : Prog S α} {q : π.State} (hp : p.Obeys π post q) : p.Obeys π post' q := by
  induction hp with
  | pure ha => exact .pure (h _ _ ha)
  | ask hs _ ih => exact .ask hs ih

/-- The rule of sequence: where the second program obeys the protocol from every state the first
may end in, the two in sequence do. -/
theorem Obeys.bind {mid : π.State → α → Prop} {post : π.State → β → Prop} {p : Prog S α}
    {f : α → Prog S β} {q : π.State} (hp : p.Obeys π mid q)
    (hf : ∀ q a, mid q a → (f a).Obeys π post q) : (p.bind f).Obeys π post q :=
  (obeys_bind post p f q).mpr (hp.mono hf)

end Prog

end Interleave
