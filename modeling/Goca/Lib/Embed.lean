import Goca.Lib.Trace

/-!
# Programs over more statements

A signature can be part of a larger one: `Sig.sum S T` has the statements of both. A program over
`S` is then a program over the sum that never asks a statement of `T`, and what is proved of its
text stays true. The meaning of the sum is given where the worlds are known: `Sem.sum` runs the
statements of `S` on the part of the world that they know.
-/

set_option autoImplicit false

namespace Interleave

/-- The statements of two signatures. -/
abbrev Sig.sum (S T : Sig) : Sig where
  Stmt := S.Stmt ⊕ T.Stmt
  Ans
    | .inl s => S.Ans s
    | .inr t => T.Ans t

variable {S T : Sig} {α β ε E V W : Type}

/-- A program over the larger signature. -/
def Prog.embed : Prog S α → Prog (S.sum T) α
  | .pure a => .pure a
  | .ask s k => .ask (.inl s) fun x => (k x).embed

/-- An action over the larger signature. -/
def Act.embed (x : Act S ε α) : Act (S.sum T) ε α := ExceptT.mk x.run.embed

/-- The meaning of the larger signature: a statement of the first one changes the part of the world
that `get` reads and `set` writes. -/
def Sem.sum (get : V → W) (set : V → W → V) (semS : Sem S E W) (semT : Sem T E V) :
    Sem (S.sum T) E V
  | e, v, .inl s => (semS e (get v) s).map fun r => (r.1, set v r.2)
  | e, v, .inr t => semT e v t

theorem Sem.sum_inl {get : V → W} {set : V → W → V} {semS : Sem S E W} {semT : Sem T E V} {e : E}
    {v v' : V} {s : S.Stmt} {x : S.Ans s} :
    Sem.sum get set semS semT e v (.inl s) = some (x, v') ↔
      ∃ w', semS e (get v) s = some (x, w') ∧ v' = set v w' := by
  show Option.map _ _ = _ ↔ _
  rw [Option.map_eq_some_iff]
  constructor
  · rintro ⟨⟨y, w'⟩, hw, heq⟩
    obtain ⟨rfl, rfl⟩ := Prod.mk.inj heq
    exact ⟨w', hw, rfl⟩
  · rintro ⟨w', hw, rfl⟩
    exact ⟨(x, w'), hw, rfl⟩

namespace Prog

/-- What a program may ask bounds what it may ask among more statements. -/
theorem Uses.embed {P : S.Stmt → Prop} {Q : (S.sum T).Stmt → Prop} (h : ∀ s, P s → Q (.inl s))
    {p : Prog S α} (hp : p.Uses P) : (p.embed (T := T)).Uses Q := by
  induction hp with
  | pure a => exact .pure a
  | ask hs _ ih => exact .ask (h _ hs) ih

/-- The part of a trace over the larger signature that is about the first one. -/
def leftTrace : Trace (S.sum T) → Trace S
  | [] => []
  | ⟨.inl s, x⟩ :: q => ⟨s, x⟩ :: leftTrace q
  | ⟨.inr _, _⟩ :: q => leftTrace q

theorem leftTrace_append (q q' : Trace (S.sum T)) :
    leftTrace (q ++ q') = leftTrace q ++ leftTrace q' := by
  induction q with
  | nil => rfl
  | cons x q ih =>
    rcases x with ⟨_ | _, _⟩
    · exact congrArg _ ih
    · exact ih

theorem mem_leftTrace {q : Trace (S.sum T)} {s : S.Stmt} {x : S.Ans s} :
    (⟨s, x⟩ : (s : S.Stmt) × S.Ans s) ∈ leftTrace q ↔
      (⟨.inl s, x⟩ : (s : (S.sum T).Stmt) × (S.sum T).Ans s) ∈ q := by
  induction q with
  | nil => simp [leftTrace]
  | cons y q ih =>
    rcases y with ⟨s' | t, y⟩
    · rw [leftTrace, List.mem_cons, List.mem_cons, ih]
      refine or_congr_left ?_
      constructor
      · intro h
        cases h
        rfl
      · intro h
        cases h
        rfl
    · rw [leftTrace, List.mem_cons, ih]
      constructor
      · exact .inr
      · rintro (h | h)
        · cases h
        · exact h

/-- What is on the part of a trace is on the trace. -/
theorem leftTrace_prefix {q : Trace S} {r : Trace (S.sum T)} {s : S.Stmt} {x : S.Ans s}
    (h : q ++ [⟨s, x⟩] <+: leftTrace r) :
    ∃ q', q' ++ [(⟨.inl s, x⟩ : (s : (S.sum T).Stmt) × (S.sum T).Ans s)] <+: r ∧
      leftTrace q' = q := by
  induction r generalizing q with
  | nil => exact absurd (List.prefix_nil.mp h) (by simp)
  | cons y r ih =>
    rcases y with ⟨s' | t, y⟩
    · cases q with
      | nil =>
        obtain ⟨heq, -⟩ := List.cons_prefix_cons.mp h
        cases heq
        exact ⟨[], List.cons_prefix_cons.mpr ⟨rfl, List.nil_prefix⟩, rfl⟩
      | cons z q =>
        obtain ⟨rfl, hrest⟩ := List.cons_prefix_cons.mp h
        obtain ⟨q', hq', rfl⟩ := ih hrest
        exact ⟨⟨.inl s', y⟩ :: q', List.cons_prefix_cons.mpr ⟨rfl, hq'⟩, rfl⟩
    · obtain ⟨q', hq', rfl⟩ := ih h
      exact ⟨⟨.inr t, y⟩ :: q', List.cons_prefix_cons.mpr ⟨rfl, hq'⟩, rfl⟩

/-- What a program's text says of its trace it says among more statements, of its part. -/
theorem Traced.embed {may : Trace S → S.Stmt → Prop} {post : Trace S → α → Prop}
    {may' : Trace (S.sum T) → (S.sum T).Stmt → Prop} {post' : Trace (S.sum T) → α → Prop}
    (hmay : ∀ q s, may (leftTrace q) s → may' q (.inl s))
    (hpost : ∀ q a, post (leftTrace q) a → post' q a) {p : Prog S α} {q : Trace (S.sum T)}
    (hp : p.Traced may post (leftTrace q)) : (p.embed (T := T)).Traced may' post' q := by
  induction p generalizing q with
  | pure a => exact traced_pure.mpr (hpost q a (traced_pure.mp hp))
  | ask s k ih =>
    obtain ⟨hs, hk⟩ := traced_ask.mp hp
    refine traced_ask.mpr ⟨hmay q s hs, ?_⟩
    intro x
    refine ih x ?_
    rw [leftTrace_append]
    exact hk x

end Prog

end Interleave
