import Mathlib.Data.List.Induction
import Goca.Laws.Footprint
import Goca.Store.Step

/-!
# What a statement of a call rests on

A handler asks for an effect only after it has seen certain answers: the update of a release comes
right after the guard found the certificate on hold, an issued certificate comes after a claim that
found its order ready. Such a fact is about the handler's text, and is proved as
`Prog.Traced`; here are the rules for the single statements, and the theorem that carries what is
proved of every call to every interleaving of calls.
-/

set_option autoImplicit false

namespace Goca

open Goca.Store
open Interleave (Act Prog Pool Trace Lawful own)
open Interleave.Act

/-! ## Single statements -/

section Leaves

variable {ε α : Type} {may : Trace sig → Stmt → Prop} {q : Trace sig}

/-- A statement over the CA tables leaves its answer on the trace. -/
theorem ca_traced {s : CaStmt} (h : may q (.ca s)) :
    (ca s).Traced may (fun q' a => q' = q ++ [⟨.ca s, .ok a⟩]) q := by
  refine Prog.traced_ask.mpr ⟨h, fun x => Prog.traced_pure.mpr ?_⟩
  rintro a rfl
  rfl

theorem acme_traced {s : AcmeStmt} (h : may q (.acme s)) :
    (acme s).Traced may (fun q' a => q' = q ++ [⟨.acme s, .ok a⟩]) q := by
  refine Prog.traced_ask.mpr ⟨h, fun x => Prog.traced_pure.mpr ?_⟩
  rintro a rfl
  rfl

theorem host_traced {s : HostStmt} (h : may q (.host s)) :
    (host s : Handler ε s.Res).Traced may (fun q' a => q' = q ++ [⟨.host s, a⟩]) q := by
  refine Prog.traced_ask.mpr ⟨h, fun x => Prog.traced_pure.mpr ?_⟩
  rintro a ha
  cases ha
  rfl

/-- The trace holds statement `s` with the answer `x`. -/
def Saw (q : Trace sig) (s : Stmt) (x : s.Ans) : Prop := (⟨s, x⟩ : (s : Stmt) × s.Ans) ∈ q

theorem Saw.extend {q q' : Trace sig} {s : Stmt} {x : s.Ans} (h : Saw q s x) (hq : q <+: q') :
    Saw q' s x := hq.subset h

theorem saw_snoc (q : Trace sig) (s : Stmt) (x : s.Ans) : Saw (q ++ [⟨s, x⟩]) s x :=
  List.mem_append_right _ (List.mem_singleton_self _)

theorem ca_saw {s : CaStmt} (h : may q (.ca s)) :
    (ca s).Traced may (fun q' a => Saw q' (.ca s) (.ok a)) q :=
  (ca_traced h).mono fun q' a hq' => by rw [hq']; exact saw_snoc _ _ _

theorem acme_saw {s : AcmeStmt} (h : may q (.acme s)) :
    (acme s).Traced may (fun q' a => Saw q' (.acme s) (.ok a)) q :=
  (acme_traced h).mono fun q' a hq' => by rw [hq']; exact saw_snoc _ _ _

theorem host_saw {s : HostStmt} (h : may q (.host s)) :
    (host s : Handler ε s.Res).Traced may (fun q' a => Saw q' (.host s) a) q :=
  (host_traced h).mono fun q' a hq' => by rw [hq']; exact saw_snoc _ _ _

theorem now_saw (h : may q (.host .now)) :
    (now : Handler ε Go.Time).Traced may (fun q' t => Saw q' (.host .now) t) q := host_saw h

/-- A call of the host that succeeded is on the trace with its result. -/
theorem hostCall_saw {x : Handler Go.Error (Except Go.Error α)}
    {post : Trace sig → Except Go.Error α → Prop} (hx : x.Traced may post q) :
    (Pki.hostCall x).Traced may (fun q' a => post q' (.ok a)) q := by
  refine hx.mapResult fun q' r b _ hr hb => ?_
  match r with
  | .ok (.ok a) => cases hb; exact hr _ rfl
  | .ok (.error e) => cases hb
  | .error e => cases hb

/-- A row that was found is on the trace. -/
theorem row_ok {r : Except Go.Error (Option α)} {a : α} (h : row r = .ok a) : r = .ok (some a) := by
  match r with
  | .ok (some b) => cases h; rfl
  | .ok none => cases h
  | .error e => cases h

theorem row_traced {x : Handler Go.Error (Option α)} {post : Trace sig → Option α → Prop}
    (hx : x.Traced may post q) : (x.mapResult row).Traced may (fun q' a => post q' (some a)) q :=
  hx.mapResult fun _ _ _ _ hr ha => hr _ (row_ok ha)

/-- A conditional update that reports success affected one row. -/
theorem affectedOne_true {r : Except Go.Error Nat} (h : affectedOne r = .ok true) :
    r = .ok 1 := by
  cases r with
  | error e => cases h
  | ok n =>
    obtain rfl : n = 1 := by simpa [affectedOne, Except.map] using h
    rfl

/-- An action that only asks what is allowed from here on. -/
theorem uses_traced {P : Stmt → Prop} {x : Handler ε α} (hx : x.Uses P)
    (h : ∀ q' s, q <+: q' → P s → may q' s) : x.Traced may (fun _ _ => True) q :=
  Prog.Uses.traced_of hx h fun _ _ _ _ => trivial

theorem traced_failIf_eq {c : Prop} [Decidable c] {e : ε} :
    (failIf c e : Handler ε Unit).Traced may (fun q' _ => q' = q ∧ ¬ c) q :=
  traced_failIf fun hc => ⟨rfl, hc⟩

theorem traced_ofExcept_eq {r : Except ε α} :
    (Act.ofExcept r : Handler ε α).Traced may (fun q' a => q' = q ∧ r = .ok a) q :=
  traced_ofExcept fun _ ha => ⟨rfl, ha⟩

theorem replying_traced {err : ε → Reply} {ok : α → Reply} {x : Handler ε α}
    {post : Trace sig → α → Prop} (hx : x.Traced may post q) :
    (replying err ok x).Traced may (fun _ _ => True) q :=
  Prog.Traced.bind hx fun q' r _ _ => by
    cases r with
    | ok a => exact Prog.traced_pure.mpr trivial
    | error e => exact Prog.traced_pure.mpr trivial

end Leaves

/-! ## What a relation allows -/

section Allowed

variable {ε α : Type} {may : Trace sig → Stmt → Prop} {q : Trace sig}

/-- What a relation allows from a trace on: every statement whose effect is listed. -/
def Allows (ks : List Effect) (may : Trace sig → Stmt → Prop) (q : Trace sig) : Prop :=
  ∀ q' s, q <+: q' → Within ks s → may q' s

/-- What every relation here must allow: everything without an effect. -/
abbrev AllowsReads (may : Trace sig → Stmt → Prop) (q : Trace sig) : Prop := Allows [] may q

theorem Allows.extend {ks : List Effect} {q' : Trace sig} (h : Allows ks may q) (hq : q <+: q') :
    Allows ks may q' := fun q'' s hq' hs => h q'' s (hq.trans hq') hs

theorem Allows.mono {ks ks' : List Effect} (h : Allows ks' may q) (hks : ks ⊆ ks') :
    Allows ks may q := fun q' s hq hs => h q' s hq (hs.mono hks)

theorem Allows.reads {ks : List Effect} (h : Allows ks may q) : AllowsReads may q :=
  h.mono (List.nil_subset ks)

/-- An action whose effects are listed. -/
theorem Allows.traced {ks : List Effect} (h : Allows ks may q) {x : Handler ε α}
    (hx : x.Uses (Within ks)) : x.Traced may (fun _ _ => True) q := uses_traced hx h

/-- A statement without effect is on the trace with its result. -/
theorem Allows.ca {ks : List Effect} (h : Allows ks may q) (s : CaStmt) (hs : Within ks (.ca s)) :
    (ca s).Traced may (fun q' a => Saw q' (.ca s) (.ok a)) q :=
  ca_saw (h q _ List.prefix_rfl hs)

theorem Allows.now {ks : List Effect} (h : Allows ks may q) :
    may q (.host .now) := h q _ List.prefix_rfl trivial

theorem Allows.acme {ks : List Effect} (h : Allows ks may q) (s : AcmeStmt)
    (hs : Within ks (.acme s)) :
    (acme s).Traced may (fun q' a => Saw q' (.acme s) (.ok a)) q :=
  acme_saw (h q _ List.prefix_rfl hs)

end Allowed

/-! ## Interleavings of calls -/

section Served

variable [Go.Runtime]

/-- What is proved of every call holds of every thread and every event of every interleaving. -/
theorem served_traced {may : Call → Trace sig → Stmt → Prop} {post : Call → Trace sig → Reply → Prop}
    (h : ∀ c : Call, c.serve.Traced (may c) (post c) []) (w : World) (calls : List Call)
    (moves : Pool.Schedule Env) :
    Lawful (fun t q s => ∀ c, calls[t]? = some c → may c q s) (served w calls moves).history ∧
      (served w calls moves).Traced (fun t q s => ∀ c, calls[t]? = some c → may c q s)
        (fun t q r => ∀ c, calls[t]? = some c → post c q r) := by
  refine Pool.run_traced Pool.lawful_init (Pool.traced_init fun t p hp => ?_) moves
  rw [List.getElem?_map] at hp
  obtain ⟨c, hc, rfl⟩ := Option.map_eq_some_iff.mp hp
  refine (h c).mono (fun q s hs c' hc' => ?_) fun q r hr c' hc' => ?_
  · obtain rfl : c = c' := Option.some.inj (hc.symm.trans hc')
    exact hs
  · obtain rfl : c = c' := Option.some.inj (hc.symm.trans hc')
    exact hr

/-- A thread that asks something serves one of the calls. -/
theorem call_of_next {w : World} {calls : List Call} {moves : Pool.Schedule Env} {t : Nat}
    {s : Stmt} (h : (served w calls moves).next? t = some s) : ∃ c, calls[t]? = some c := by
  obtain ⟨k, hk⟩ := Pool.next?_eq_some.mp h
  have hlt := (List.getElem?_eq_some_iff.mp hk).1
  rw [served, Pool.length_threads_run, serving, Pool.init, List.length_map] at hlt
  exact ⟨calls[t], List.getElem?_eq_getElem hlt⟩

/-- What a thread asks next is allowed to its call, given what the thread has seen. -/
theorem allowed_next {may : Call → Trace sig → Stmt → Prop} {post : Call → Trace sig → Reply → Prop}
    (h : ∀ c : Call, c.serve.Traced (may c) (post c) []) {w : World} {calls : List Call}
    {moves : Pool.Schedule Env} {t : Nat} {s : Stmt}
    (hs : (served w calls moves).next? t = some s) :
    ∃ c, calls[t]? = some c ∧ may c (own t (served w calls moves).history) s := by
  obtain ⟨c, hc⟩ := call_of_next hs
  exact ⟨c, hc, Pool.next_allowed (served_traced h w calls moves).2 hs c hc⟩

theorem allowed_upto {may : Call → Trace sig → Stmt → Prop} {post : Call → Trace sig → Reply → Prop}
    (h : ∀ c : Call, c.serve.Traced (may c) (post c) []) {w : World} {calls : List Call}
    {moves : Pool.Schedule Env} {i t : Nat} {s : Stmt}
    (hs : (servedUpto w calls moves i).next? t = some s) :
    ∃ c, calls[t]? = some c ∧ may c (own t (servedUpto w calls moves i).history) s :=
  allowed_next h hs

/-- What a thread returned fits its call and what the thread has seen. -/
theorem returned {may : Call → Trace sig → Stmt → Prop} {post : Call → Trace sig → Reply → Prop}
    (h : ∀ c : Call, c.serve.Traced (may c) (post c) []) {w : World} {calls : List Call}
    {moves : Pool.Schedule Env} {t : Nat} {c : Call} (hc : calls[t]? = some c) {r : Reply}
    (hr : (served w calls moves).threads[t]? = some (.pure r)) :
    post c (own t (served w calls moves).history) r :=
  Prog.traced_pure.mp ((served_traced h w calls moves).2 t _ hr) c hc

/-- **The invariant rule for calls**: what holds of the history and the world at the start, and is
kept by every statement that the calls may ask, holds after every schedule. -/
theorem served_invariant {may : Call → Trace sig → Stmt → Prop}
    {post : Call → Trace sig → Reply → Prop} (h : ∀ c : Call, c.serve.Traced (may c) (post c) [])
    {P : List (Interleave.Event sig) → World → Prop} {w : World} {calls : List Call}
    (init : P [] w)
    (step : ∀ hist w e t c s x w', calls[t]? = some c → may c (own t hist) s →
      exec e w s = some (x, w') → P hist w → P (hist ++ [⟨t, s, x⟩]) w')
    (moves : Pool.Schedule Env) :
    P (served w calls moves).history (served w calls moves).world := by
  induction moves using List.reverseRecOn with
  | nil => exact init
  | append_singleton moves m ih =>
    have hrun : served w calls (moves ++ [m]) = (served w calls moves).step exec m.1 m.2 :=
      Pool.run_append exec _ _ _
    rw [hrun]
    obtain hs | ⟨s, k, x, w', ht, hx, hs⟩ := Pool.step_cases exec (served w calls moves) m.1 m.2
    · rw [hs]
      exact ih
    · rw [hs]
      obtain ⟨c, hc, hmay⟩ := allowed_next h (Pool.next?_eq_some.mpr ⟨k, ht⟩)
      exact step _ _ _ _ c s x w' hc hmay hx ih

/-- A thread whose next statement is one over the ACME tables asks it when it moves. -/
theorem asked_acme {w : World} {calls : List Call} {moves : Pool.Schedule Env} {i t : Nat}
    {e : Env} {s : AcmeStmt} (hmove : moves[i]? = some (t, e)) (hnow : 0 < e.now)
    (hnext : (servedUpto w calls moves i).next? t = some (.acme s)) :
    ∃ x, Pool.AskedAt exec (serving w calls) moves i t e (.acme s) x :=
  ⟨_, .of_next hmove hnext (by rw [exec, if_pos hnow])⟩

/-- What a thread has seen was asked at an earlier move. -/
theorem saw_origin {w : World} {calls : List Call} {moves : Pool.Schedule Env} {i t : Nat}
    {s : Stmt} {x : s.Ans} (hi : i ≤ moves.length)
    (h : Saw (own t (servedUpto w calls moves i).history) s x) :
    ∃ j e, j < i ∧ Pool.AskedAt exec (serving w calls) moves j t e s x :=
  Pool.history_origin hi rfl (Interleave.mem_own.mp h)

/-- What is on a thread's trace was asked at a move before which the thread had the trace before
it. -/
theorem own_asked {w : World} {calls : List Call} {moves : Pool.Schedule Env} {t : Nat}
    {q : Trace sig} {s : Stmt} {x : s.Ans}
    (h : q ++ [⟨s, x⟩] <+: own t (served w calls moves).history) :
    ∃ m e, m < moves.length ∧ Pool.AskedAt exec (serving w calls) moves m t e s x ∧
      own t (servedUpto w calls moves m).history = q := by
  rw [served, ← Pool.upto_length] at h
  exact Pool.own_origin (Nat.le_refl _) rfl h

end Served

end Goca
