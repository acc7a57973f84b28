import Mathlib.Algebra.CharP.Defs
import Mathlib.Algebra.Order.Ring.Star
import Mathlib.Data.Int.ConditionallyCompleteOrder
import Mathlib.Data.Int.Star
import Mathlib.Tactic.Linarith
import Mathlib.Tactic.Ring
import Goca.Laws.Deliveries
import Goca.Lib.Cost

/-!
# Sending twice at once

One clock reading stamps the claim of a whole batch, which is then sent one delivery after the
other. So two dispatchers send one delivery at once only where a batch outlives its claim. A claim
that is young is a lease: nobody else takes the delivery over (`Leased`). How old it gets is counted
from the text of the tick, which asks so many statements for each delivery (`tick_costs`), and what
each of them may take in a run (`Paced`).
-/

set_option autoImplicit false

namespace Goca.Webhooks

open Sql (Table)
open Interleave (Act Prog Pool Trace own spent spent_cons spent_snoc)
open Interleave.Act (Costs Traced costs_pure costs_ite)

section Laws

variable [Library] (d : Dispatcher) (w : World) (ts : List Task) (moves : Pool.Schedule Env)

/-- **No delivery is being sent by two threads at once.** -/
def NoDoubleSend : Prop := ∀ i, i ≤ moves.length → ∀ t u id,
  (workingUpto d w ts moves i).next? t = some (.await id) →
    (workingUpto d w ts moves i).next? u = some (.await id) → t = u

/-- How long after its last statement a dispatcher may ask the next one, or be answered by an
endpoint. -/
def charge (pace : Duration) : Stmt → Duration
  | .await _ => d.timeout
  | _ => pace

/-- **A paced run**: the clock does not go back, no dispatcher stops on the way, each of its
statements comes within `pace` of the one before, and each HTTP attempt ends within the timeout of
the client. -/
structure Paced (pace : Duration) : Prop where
  clock : ∀ i j (hi : i < moves.length) (hj : j < moves.length), i ≤ j →
    moves[i].2.now ≤ moves[j].2.now
  prompt : ∀ i j t s (hi : i < moves.length) (hj : j < moves.length), i < j → moves[i].1 = t →
    (∀ m (hm : m < moves.length), i < m → m < j → moves[m].1 ≠ t) → ts[t]? = some .tick →
      (workingUpto d w ts moves j).next? t = some s →
        moves[j].2.now ≤ moves[i].2.now + charge d pace s

/-- How long a batch of `n` deliveries may take from the clock reading on: its claim, and for each
delivery an HTTP attempt and four statements. -/
def Dispatcher.batchTime (pace : Duration) (n : Nat) : Duration :=
  pace + n * (d.timeout + 4 * pace)

/-- **A run whose claims cover their batches**: the time of a batch, at that pace and of at most `n`
deliveries, is less than the limit after which its claim is taken over. -/
structure Covered (pace : Duration) (n : Nat) : Prop extends Paced d w ts moves pace where
  pace_nonneg : 0 ≤ pace
  batch : ∀ i t, i ≤ moves.length → ts[t]? = some .tick →
    (cursorAt d w ts moves i t).batch.length ≤ n
  cover : d.batchTime pace n < d.claimStale

/-- No clock reading before move `i` has come to `deadline`. -/
def Before (i : Nat) (deadline : Instant) : Prop :=
  ∀ m (hm : m < moves.length), m < i → moves[m].2.now < deadline

/-- Who acts for a delivery does so while its claim is young. -/
def InTime : Prop := ∀ i, i ≤ moves.length → ∀ t s id,
  (workingUpto d w ts moves i).next? t = some s → about? s = some id →
    Before moves i ((cursorAt d w ts moves i t).claimedAt + d.claimStale)

end Laws

/-! ## What a tick costs -/

section Tick

variable {ε : Type} {d : Dispatcher} {pace : Duration}

theorem batchTime_mono (hpace : 0 ≤ pace) (htimeout : 0 ≤ d.timeout) {m n : Nat} (h : m ≤ n) :
    d.batchTime pace m ≤ d.batchTime pace n := by
  have hone : 0 ≤ d.timeout + 4 * pace := by linarith
  have hcast : (m : Int) ≤ n := by exact_mod_cast h
  have hmul := Int.mul_le_mul_of_nonneg_right hcast hone
  unfold Dispatcher.batchTime
  linarith

theorem charge_nonneg (hpace : 0 ≤ pace) (htimeout : 0 ≤ d.timeout) (s : Stmt) :
    0 ≤ charge d pace s := by
  cases s with
  | now | send r | db s => exact hpace
  | await id => exact htimeout

theorem db_costs (s : HookStmt) : (db s).Costs (charge d pace) pace := by
  refine ⟨le_rfl, fun x => ?_⟩
  show (0 : Duration) ≤ pace - pace
  linarith

theorem now_costs : (now : Handler ε Instant).Costs (charge d pace) pace := by
  refine ⟨le_rfl, fun x => ?_⟩
  show (0 : Duration) ≤ pace - pace
  linarith

theorem httpDo_costs (htimeout : 0 ≤ d.timeout) (r : Request) :
    (httpDo r : Handler ε _).Costs (charge d pace) (pace + d.timeout) := by
  refine ⟨?_, fun x => ⟨?_, fun y => ?_⟩⟩
  · show pace ≤ pace + d.timeout
    linarith
  · show d.timeout ≤ pace + d.timeout - pace
    linarith
  · show (0 : Duration) ≤ pace + d.timeout - pace - d.timeout
    linarith

theorem record_costs (id : Nat) (o : Outcome) :
    (recordWebhookDeliveryResult id o).Costs (charge d pace) pace :=
  (db_costs (.recordResult id o)).mapResult _

theorem recordFailure_costs (hpace : 0 ≤ pace) (del : Delivery) (httpStatus : Int) (err : String) :
    (d.recordFailure del httpStatus err : Handler ε Unit).Costs (charge d pace) (2 * pace) := by
  have hsum : 2 * pace = pace + (pace + 0) := by linarith
  rw [hsum]
  refine Costs.bind ?_ (fun next => ?_) (by linarith)
  · refine costs_ite (fun _ => ?_) fun _ => (costs_pure none).mono hpace
    refine Costs.mono (c := pace + 0) ?_ (by linarith)
    exact now_costs.bind (fun t => costs_pure _) le_rfl
  · exact (record_costs del.id _).attempt.bind (fun _ => costs_pure ()) le_rfl

theorem recordResponse_costs (hpace : 0 ≤ pace) (del : Delivery) (resp : Except Go.Error Int) :
    (d.recordResponse del resp : Handler ε Unit).Costs (charge d pace) (2 * pace) := by
  cases resp with
  | error e => exact recordFailure_costs hpace del 0 e.text
  | ok status =>
    refine costs_ite (fun _ => ?_) fun _ => recordFailure_costs hpace del status _
    refine Costs.mono (c := pace + 0) ?_ (by linarith)
    exact (record_costs del.id _).attempt.bind (fun _ => costs_pure ()) le_rfl

variable [Library]

/-- One delivery costs an HTTP attempt and four statements. -/
theorem deliver_costs (hpace : 0 ≤ pace) (htimeout : 0 ≤ d.timeout) (del : Delivery) :
    (d.deliver del : Handler ε Unit).Costs (charge d pace) (d.timeout + 4 * pace) := by
  have hsum : d.timeout + 4 * pace = pace + (pace + d.timeout + 2 * pace) := by linarith
  rw [hsum]
  refine Costs.bind ((db_costs (.selectWebhook _)).mapResult row).attempt (fun wh => ?_) (by linarith)
  have hrest {x : Handler ε Unit} (hx : x.Costs (charge d pace) (2 * pace)) :
      x.Costs (charge d pace) (pace + d.timeout + 2 * pace) := hx.mono (by linarith)
  have hpure : (pure () : Handler ε Unit).Costs (charge d pace) (2 * pace) :=
    (costs_pure ()).mono (by linarith)
  cases wh with
  | error e => exact hrest hpure
  | ok wh =>
    cases hkey : signingKey wh with
    | error e =>
      simp only [hkey]
      exact hrest hpure
    | ok key =>
      simp only [hkey]
      cases hurl : Library.checkURL wh.url with
      | error e => exact hrest (recordFailure_costs hpace del 0 e.text)
      | ok u =>
        exact (httpDo_costs htimeout _).bind (fun resp => recordResponse_costs hpace del resp)
          (by linarith)

theorem deliverEach_costs (hpace : 0 ≤ pace) (htimeout : 0 ≤ d.timeout) (batch : List Delivery) :
    (d.deliverEach batch : Handler ε Unit).Costs (charge d pace)
      (batch.length * (d.timeout + 4 * pace)) := by
  have hone : 0 ≤ d.timeout + 4 * pace := by linarith
  induction batch with
  | nil => exact (costs_pure ()).mono (by simp)
  | cons del rest ih =>
    have hsum : ((del :: rest).length : Int) * (d.timeout + 4 * pace) =
        d.timeout + 4 * pace + rest.length * (d.timeout + 4 * pace) := by
      rw [List.length_cons]
      push_cast
      ring
    rw [hsum]
    exact (deliver_costs hpace htimeout del).bind (fun _ => ih)
      (Int.mul_nonneg (Int.natCast_nonneg _) hone)

/-- What a tick asks keeps within the time of its batch, counted from the clock reading on. -/
def Thrifty (d : Dispatcher) (pace : Duration) (q : Trace sig) (s : Stmt) : Prop :=
  (q = [] → s = .now) ∧ ∀ a rest, q = a :: rest →
    spent (charge d pace) rest + charge d pace s ≤ d.batchTime pace (cursor q).batch.length

/-- **A tick keeps within the time of its batch.** -/
theorem tick_thrifty (hpace : 0 ≤ pace) (htimeout : 0 ≤ d.timeout) :
    (d.tick : Handler ε Unit).Traced (Thrifty d pace) (fun _ _ => True) [] := by
  refine Traced.bind (m := fun (q' : Trace sig) t => q' = [⟨.now, t⟩]) ?_ ?_
  · refine Prog.traced_ask.mpr ⟨⟨fun _ => rfl, ?_⟩, fun x => Prog.traced_pure.mpr ?_⟩
    · intro a rest h
      exact absurd h.symm (List.cons_ne_nil a rest)
    · rintro _ ⟨⟩
      rfl
  rintro _ t _ rfl
  refine Traced.bind (m := fun (q' : Trace sig) due => q' = [⟨.now, t⟩] ++
    [⟨.db (.claimDeliveries t (t - d.claimStale) 100), due⟩]) ?_ ?_
  · refine Prog.traced_ask.mpr ⟨⟨fun h => absurd h (List.cons_ne_nil _ _), ?_⟩,
      fun x => Prog.traced_pure.mpr ?_⟩
    · rintro _ _ ⟨⟩
      show 0 + pace ≤ pace + ((0 : Nat) : Int) * (d.timeout + 4 * pace)
      simp
    · rintro _ ⟨⟩
      rfl
  · rintro _ due _ rfl
    cases due with
    | error e => exact Act.traced_pure trivial
    | ok batch =>
      have hasks : (d.deliverEach batch : Handler ε Unit).Traced (TickWarrant d)
          (fun q' _ => (cursor q').Finished) ([⟨.now, t⟩] ++
            [⟨.db (.claimDeliveries t (t - d.claimStale) 100), .ok batch⟩]) := by
        refine deliverEach_traced ?_ rfl (Nat.zero_le _)
        rintro _ ⟨⟩
      -- the batch stays the one that was claimed, as a second claim is not allowed
      have hkeeps := Prog.Traced.keeps hasks (J := fun q' => (cursor q').batch = batch ∧
        ∃ a rest, q' = ⟨.now, t⟩ :: a :: rest) ?_ ⟨rfl, _, [], rfl⟩
      · refine (hkeeps.and ((deliverEach_costs hpace htimeout batch).traced _)).mono ?_
          fun _ _ _ _ _ => trivial
        rintro _ s ⟨⟨_, hbatch, a, rest, rfl⟩, hcost⟩
        refine ⟨fun h => absurd h (List.cons_ne_nil _ _), ?_⟩
        rintro _ _ ⟨⟩
        rw [hbatch]
        have hstart : spent (charge d pace) ([⟨.now, t⟩] ++ [⟨.db (.claimDeliveries t
          (t - d.claimStale) 100), .ok batch⟩] : Trace sig) = pace + (pace + 0) := rfl
        rw [hstart, spent_cons] at hcost
        have hnow : charge d pace .now = pace := rfl
        show _ ≤ pace + batch.length * (d.timeout + 4 * pace)
        linarith
      · rintro _ s x ⟨hbatch, a, rest, rfl⟩ hs
        refine ⟨?_, a, rest ++ [⟨s, x⟩], rfl⟩
        rw [cursor_snoc, (Cursor.next_of_ne ?_ _ x).1]
        · exact hbatch
        · rintro t b limit rfl
          exact absurd hs.2 (by simp)

/-- A poll keeps within the time of its batch. -/
theorem serve_thrifty (hpace : 0 ≤ pace) (htimeout : 0 ≤ d.timeout) (task : Task) :
    (task.serve d).Traced (fun q s => task = .tick → Thrifty d pace q s) (fun _ _ => True) [] := by
  by_cases htick : task = .tick
  · subst htick
    have htraced : (d.tick : Handler Empty Unit).run.Traced
        (fun q s => Task.tick = .tick → Thrifty d pace q s) (fun _ _ => True) [] :=
      Prog.Traced.mono (fun _ _ hs _ => hs) (fun _ _ _ => trivial) (tick_thrifty hpace htimeout)
    exact htraced.bind fun _ _ _ _ => Prog.traced_pure.mpr trivial
  · exact (Prog.traced_any _ _).mono (fun _ _ _ h => absurd h htick) fun _ _ _ => trivial

end Tick

/-! ## How old a claim gets -/

section Runs

variable [Library] {d : Dispatcher} {w : World} {ts : List Task} {moves : Pool.Schedule Env}
  {pace : Duration} {i t : Nat}

/-- Before move `i` the poll `t` has not read its clock, or it was within its charges ever since:
what it asked last, and the clock, as long as it has something to ask. -/
def OnPace (d : Dispatcher) (w : World) (ts : List Task) (moves : Pool.Schedule Env)
    (pace : Duration) (i t : Nat) : Prop :=
  own t (workingUpto d w ts moves i).history = [] ∨ ∃ read rest,
    own t (workingUpto d w ts moves i).history = ⟨.now, read⟩ :: rest ∧
    ((cursorAt d w ts moves i t).batch ≠ [] → (cursorAt d w ts moves i t).claimedAt = read) ∧
    ∀ s, (workingUpto d w ts moves i).next? t = some s →
      (∃ l, ∃ hl : l < moves.length, l < i ∧ moves[l].1 = t ∧
        (∀ m (hm : m < moves.length), l < m → m < i → moves[m].1 ≠ t) ∧
        moves[l].2.now ≤ read + spent (charge d pace) rest) ∧
      ∀ m (hm : m < moves.length), m < i →
        moves[m].2.now ≤ read + spent (charge d pace) rest + charge d pace s

/-- A move of another thread finds a poll on pace, as it is prompt. -/
theorem onPace_other (hp : Paced d w ts moves pace) (hi : i < moves.length)
    (htick : ts[t]? = some .tick) (hne : moves[i].1 ≠ t) (h : OnPace d w ts moves pace i t) :
    OnPace d w ts moves pace (i + 1) t := by
  obtain ⟨hown, hnext⟩ := working_other d w ts hi hne
  unfold OnPace cursorAt at h ⊢
  rw [hown, hnext]
  rcases h with h | ⟨read, rest, hread, hclaimed, hworking⟩
  · exact .inl h
  refine .inr ⟨read, rest, hread, hclaimed, fun s hs => ?_⟩
  obtain ⟨⟨l, hl, hlt, hmine, hlast, hle⟩, hall⟩ := hworking s hs
  have hlast' : ∀ m (hm : m < moves.length), l < m → m < i + 1 → moves[m].1 ≠ t := by
    intro m hm hlm hmi
    rcases Nat.lt_succ_iff_lt_or_eq.mp hmi with hmi | rfl
    · exact hlast m hm hlm hmi
    · exact hne
  refine ⟨⟨l, hl, by omega, hmine, hlast', hle⟩, fun m hm hmi => ?_⟩
  rcases Nat.lt_succ_iff_lt_or_eq.mp hmi with hmi | rfl
  · exact hall m hm hmi
  · have hprompt := hp.prompt l m t s hl hm hlt hmine hlast htick hs
    linarith

/-- A statement of a poll that is on pace leaves it on pace. -/
theorem onPace_self (hp : Paced d w ts moves pace) (hpace : 0 ≤ pace) (htimeout : 0 ≤ d.timeout)
    (hi : i < moves.length) (htick : ts[moves[i].1]? = some .tick)
    (h : OnPace d w ts moves pace i moves[i].1) : OnPace d w ts moves pace (i + 1) moves[i].1 := by
  cases hnext : (workingUpto d w ts moves i).next? moves[i].1 with
  | none =>
    rcases working_asked d w ts hi with hsame | ⟨s, x, hasked, _⟩
    · unfold OnPace cursorAt at h ⊢
      rw [hsame, hnext]
      rcases h with h | ⟨read, rest, hread, hclaimed, _⟩
      · exact .inl h
      · exact .inr ⟨read, rest, hread, hclaimed, fun _ hs => absurd hs.symm (Option.some_ne_none _)⟩
    · exact absurd (hnext.symm.trans hasked.next) (by simp)
  | some s =>
    obtain ⟨x, hasked, hhist⟩ := working_moves hi hnext
    obtain ⟨task, htask, hwarrant⟩ := working_may hnext
    obtain rfl := Option.some.inj (htick.symm.trans htask)
    have hthrifty : Thrifty d pace (own moves[i].1 (workingUpto d w ts moves i).history) s := by
      obtain ⟨task, htask, hthrifty⟩ :=
        Pool.next_allowed (working_of_serve (serve_thrifty hpace htimeout) w ts moves i) hnext
      exact hthrifty (Option.some.inj (htask.symm.trans htick))
    have hown : own moves[i].1 (workingUpto d w ts moves (i + 1)).history =
        own moves[i].1 (workingUpto d w ts moves i).history ++ [⟨s, x⟩] := by
      rw [hhist, Interleave.own_snoc_self]
    unfold OnPace cursorAt at h ⊢
    rw [hown]
    rcases h with hnil | ⟨read, rest, hread, hclaimed, hworking⟩
    · -- its first statement reads the clock
      obtain rfl := hthrifty.1 hnil
      obtain rfl : moves[i].2.now = x := congrArg Prod.fst (Option.some.inj hasked.exec)
      rw [hnil]
      refine .inr ⟨moves[i].2.now, [], rfl, fun hne => absurd rfl hne, fun s' _ => ?_⟩
      have hzero : spent (charge d pace) ([] : Trace sig) = 0 := rfl
      rw [hzero]
      refine ⟨⟨i, hi, by omega, rfl, fun m _ _ _ => by omega, by linarith⟩, fun m hm hmi => ?_⟩
      have hclock := hp.clock m i hm hi (by omega)
      have hcharge := charge_nonneg hpace htimeout s'
      linarith
    · obtain ⟨⟨l, hl, hlt, hmine, hlast, hle⟩, hall⟩ := hworking s hnext
      have hprompt := hp.prompt l i _ s hl hi hlt hmine hlast htick hnext
      rw [hread]
      refine .inr ⟨read, rest ++ [⟨s, x⟩], rfl, ?_, fun s' _ => ?_⟩
      · intro hne
        rw [List.cons_append, ← List.cons_append, cursor_snoc] at hne ⊢
        by_cases hclaim : ∃ now b limit, s = .db (.claimDeliveries now b limit)
        · obtain ⟨now, b, limit, rfl⟩ := hclaim
          obtain ⟨_, hq⟩ := hwarrant
          rw [hread] at hq
          cases hq
          cases x with
          | ok batch => rfl
          | error e => exact absurd rfl hne
        · obtain ⟨hbatch, hat⟩ := Cursor.next_of_ne (s := s) (by simpa using hclaim)
            (cursor (⟨.now, read⟩ :: rest)) x
          rw [hbatch] at hne
          rw [hat, ← hread]
          exact hclaimed (by rw [hread]; exact hne)
      · rw [spent_snoc]
        have hcharge := charge_nonneg hpace htimeout s'
        refine ⟨⟨i, hi, by omega, rfl, fun m _ _ _ => by omega, by linarith⟩, fun m hm hmi => ?_⟩
        rcases Nat.lt_succ_iff_lt_or_eq.mp hmi with hmi | rfl
        · have := hall m hm hmi
          linarith
        · linarith

/-- **Every poll of a paced run is on pace.** -/
theorem onPace_upto (hp : Paced d w ts moves pace) (hpace : 0 ≤ pace) (htimeout : 0 ≤ d.timeout)
    (htick : ts[t]? = some .tick) (hi : i ≤ moves.length) : OnPace d w ts moves pace i t := by
  induction i with
  | zero => exact .inl rfl
  | succ i ih =>
    have ih := ih (by omega)
    by_cases hne : moves[i].1 = t
    · subst hne
      exact onPace_self hp hpace htimeout hi htick ih
    · exact onPace_other hp hi htick hne ih

/-- **Who acts for a delivery acts in time** where the claims cover their batches. -/
theorem inTime_of_covered {n : Nat} (h : Covered d w ts moves pace n) (htimeout : 0 ≤ d.timeout) :
    InTime d w ts moves := by
  obtain ⟨hp, hpace, hbatch, hcover⟩ := h
  intro i hi t s id hs habout m hm hmi
  obtain ⟨task, htask, hwarrant⟩ := working_may hs
  obtain ⟨rfl, del, ⟨_, k, _, hdel⟩, _⟩ := acts_of_about hwarrant habout
  have hne : (cursorAt d w ts moves i t).batch ≠ [] := by
    intro hnil
    have hnil : (cursor (own t (workingUpto d w ts moves i).history)).batch = [] := hnil
    rw [hnil] at hdel
    cases hdel
  have hthrifty : Thrifty d pace (own t (workingUpto d w ts moves i).history) s := by
    obtain ⟨task, htask', hthrifty⟩ :=
      Pool.next_allowed (working_of_serve (serve_thrifty hpace htimeout) w ts moves i) hs
    exact hthrifty (Option.some.inj (htask'.symm.trans htask))
  rcases onPace_upto hp hpace htimeout htask hi with hnil | ⟨read, rest, hread, hclaimed, hworking⟩
  · exact absurd (by rw [cursorAt, hnil]; rfl) hne
  · have hclock := (hworking s hs).2 m hm hmi
    have hspent := hthrifty.2 _ rest hread
    have hmono := batchTime_mono (d := d) hpace htimeout (hbatch i t hi htask)
    rw [hclaimed hne]
    have hmono : d.batchTime pace (cursor (own t (workingUpto d w ts moves i).history)).batch.length
      ≤ d.batchTime pace n := hmono
    linarith

end Runs

/-! ## Leases -/

/-- **Leases**: while a claim is young, its thread is the last claimant of every delivery that it
has still to record, and the row says so. -/
structure Leased (d : Dispatcher) (young : Instant → Prop) (h : List (Interleave.Event sig))
    (w : World) : Prop where
  known : ∀ t del, del ∈ (cursor (own t h)).batch → del.id ≤ w.deliveries.seq
  distinct : ∀ t, ((cursor (own t h)).batch.map Delivery.id).Nodup
  held : ∀ t k del, (cursor (own t h)).batch[k]? = some del → (cursor (own t h)).Open k →
    young ((cursor (own t h)).claimedAt + d.claimStale) → holder del.id h = some t ∧
      ∀ r, w.deliveries.get? del.id = some r → r.claimedAt = some (cursor (own t h)).claimedAt

section Leases

variable {d : Dispatcher} {young young' : Instant → Prop} {h : List (Interleave.Event sig)}
  {w w' : World} {e : Env} {t : Nat}

/-- The row of a delivery keeps the stamp of its claim, unless a claim finds that too old or the
delivery is recorded. -/
theorem stamp_step {s : Stmt} {x : s.Ans} (hexec : exec e w s = some (x, w')) {id : Nat}
    {stamp : Instant} (hid : id ≤ w.deliveries.seq)
    (hrow : ∀ r, w.deliveries.get? id = some r → r.claimedAt = some stamp)
    (hclaim : ∀ now b limit, s = .db (.claimDeliveries now b limit) → b < stamp)
    (hrecord : ∀ o, s ≠ .db (.recordResult id o)) :
    ∀ r, w'.deliveries.get? id = some r → r.claimedAt = some stamp := by
  intro r hr
  have hstep := delivery_step hexec id
  rw [hr] at hstep
  generalize hr₀ : w.deliveries.get? id = r₀ at hstep
  cases hstep with
  | same => exact hrow r hr₀
  | inserted n hlt => omega
  | claimed r₀ now b limit hdue =>
    have hb := hclaim now b limit rfl
    have hall := (Bool.and_eq_true_iff.mp hdue).2
    rw [hrow r₀ hr₀, Option.all_some, decide_eq_true_eq] at hall
    have hall : stamp ≤ b := hall
    linarith
  | recorded r₀ o _ => exact absurd rfl (hrecord o)

/-- **A claim** leaves the leases of the others alone, and takes its own. -/
theorem Leased.claim {now staleBefore : Instant} {limit : Nat} {batch : List Delivery}
    (hl : Leased d young h w) (hyoung : ∀ stamp, young' stamp → young stamp)
    (hstale : ∀ stamp, young' (stamp + d.claimStale) → staleBefore < stamp)
    (hexec : exec e w (.db (.claimDeliveries now staleBefore limit)) = some (.ok batch, w')) :
    Leased d young' (h ++ [⟨t, .db (.claimDeliveries now staleBefore limit), .ok batch⟩]) w' := by
  obtain ⟨hdistinct, hbatch⟩ := claim_answer hexec
  have hself : cursor (own t (h ++ [⟨t, .db (.claimDeliveries now staleBefore limit),
      .ok batch⟩])) = ⟨now, batch, 0, none⟩ :=
    cursor_asked (.db (.claimDeliveries now staleBefore limit)) (.ok batch)
  have hseq := seq_step hexec
  refine ⟨?_, ?_, ?_⟩
  · intro u del hdel
    by_cases hu : t = u
    · subst hu
      rw [hself] at hdel
      obtain ⟨r, hr, _⟩ := hbatch del hdel
      have hkey : r.id = del.id := Table.key_of_get? hr
      have hle := w.deliveries.bounded r (Table.mem_of_get? hr)
      have hle : r.id ≤ w.deliveries.seq := hle
      omega
    · rw [cursor_other hu] at hdel
      exact (hl.known u del hdel).trans hseq
  · intro u
    by_cases hu : t = u
    · subst hu
      rw [hself]
      exact hdistinct
    · rw [cursor_other hu]
      exact hl.distinct u
  · intro u k del hdel hopen hy
    by_cases hu : t = u
    · subst hu
      rw [hself] at hdel ⊢
      have hmem := List.mem_of_getElem? hdel
      obtain ⟨r, _, _, hcopy, hget⟩ := hbatch del hmem
      constructor
      · rw [holder_snoc, if_pos]
        exact List.any_eq_true.mpr ⟨del, hmem, beq_self_eq_true _⟩
      · intro r' hr'
        obtain rfl := Option.some.inj (hget.symm.trans hr')
        rw [hcopy]
    · rw [cursor_other hu] at hdel hopen hy ⊢
      obtain ⟨hholder, hstamp⟩ := hl.held u k del hdel hopen (hyoung _ hy)
      have hb := hstale _ hy
      constructor
      · rw [holder_snoc, if_neg]
        · exact hholder
        · -- a young claim is not taken over
          intro hclaims
          obtain ⟨del', hmem, hid⟩ := List.any_eq_true.mp hclaims
          obtain ⟨r, hr, hdue, _⟩ := hbatch del' hmem
          rw [beq_iff_eq.mp hid] at hr
          have hall := (Bool.and_eq_true_iff.mp hdue).2
          rw [hstamp r hr, Option.all_some, decide_eq_true_eq] at hall
          have hall : (cursor (own u h)).claimedAt ≤ staleBefore := hall
          linarith
      · refine stamp_step hexec (hl.known u del (List.mem_of_getElem? hdel)) hstamp ?_ nofun
        rintro _ _ _ ⟨⟩
        exact hb

/-- **One statement** keeps the leases, where a claim is made under a clock reading and a record by
the holder. -/
theorem Leased.step (hl : Leased d young h w) {s : Stmt} {x : s.Ans}
    (hyoung : ∀ stamp, young' stamp → young stamp)
    (hstale : ∀ now b limit, s = .db (.claimDeliveries now b limit) → ∀ stamp,
      young' (stamp + d.claimStale) → b < stamp)
    (hrecord : ∀ id o, s = .db (.recordResult id o) → holder id h = some t ∧
      ∃ del, (cursor (own t h)).Attempts del ∧ del.id = id)
    (hexec : exec e w s = some (x, w')) : Leased d young' (h ++ [⟨t, s, x⟩]) w' := by
  have hseq := seq_step hexec
  -- where nothing is handed out, no batch and no lease changes hands
  have hrest (hclaims : ∀ id, claims id ⟨t, s, x⟩ = false)
      (hbatch : ((cursor (own t h)).next s x).batch = (cursor (own t h)).batch ∧
        ((cursor (own t h)).next s x).claimedAt = (cursor (own t h)).claimedAt)
      (hopen : ∀ k, ((cursor (own t h)).next s x).Open k → (cursor (own t h)).Open k) :
      Leased d young' (h ++ [⟨t, s, x⟩]) w' := by
    have hholder (id : Nat) : holder id (h ++ [⟨t, s, x⟩]) = holder id h := by
      rw [holder_snoc, hclaims]
      rfl
    have hcursor (u : Nat) : (cursor (own u (h ++ [⟨t, s, x⟩]))).batch = (cursor (own u h)).batch ∧
        (cursor (own u (h ++ [⟨t, s, x⟩]))).claimedAt = (cursor (own u h)).claimedAt ∧
        ∀ k, (cursor (own u (h ++ [⟨t, s, x⟩]))).Open k → (cursor (own u h)).Open k := by
      by_cases hu : t = u
      · subst hu
        rw [cursor_asked]
        exact ⟨hbatch.1, hbatch.2, hopen⟩
      · rw [cursor_other hu]
        exact ⟨rfl, rfl, fun _ => id⟩
    refine ⟨?_, ?_, ?_⟩
    · intro u del hdel
      rw [(hcursor u).1] at hdel
      exact (hl.known u del hdel).trans hseq
    · intro u
      rw [(hcursor u).1]
      exact hl.distinct u
    · intro u k del hdel hstill hy
      obtain ⟨hsame, hat, hwas⟩ := hcursor u
      rw [hsame] at hdel
      rw [hat] at hy ⊢
      rw [hholder]
      obtain ⟨hheld, hstamp⟩ := hl.held u k del hdel (hwas k hstill) (hyoung _ hy)
      refine ⟨hheld, stamp_step hexec (hl.known u del (List.mem_of_getElem? hdel)) hstamp
        (fun now b limit hs => hstale now b limit hs _ hy) ?_⟩
      rintro o rfl
      -- its holder would have closed the attempt
      obtain ⟨hholds, del₀, ⟨_, k₀, hbegun₀, hdel₀⟩, hid⟩ := hrecord del.id o rfl
      obtain rfl := Option.some.inj (hholds.symm.trans hheld)
      obtain rfl := index_eq (hl.distinct t) hdel hdel₀ hid.symm
      rw [cursor_asked] at hstill
      rcases hstill with hle | ⟨_, hsome⟩
      · have hle : (cursor (own t h)).begun ≤ k := hle
        omega
      · cases hsome
  cases s with
  | now | send r | await i => exact hrest (fun _ => rfl) ⟨rfl, rfl⟩ fun _ => id
  | db s =>
    cases s with
    | claimDeliveries now b limit =>
      cases x with
      | ok batch => exact hl.claim hyoung (hstale now b limit rfl) hexec
      | error err => exact hrest (fun _ => rfl) ⟨rfl, rfl⟩ fun _ => id
    | _ =>
      exact hrest (fun _ => rfl) (Cursor.next_of_ne (by simp) _ x)
        fun _ => Cursor.open_of_next (by simp)

end Leases

/-! ## Runs in time -/

/-- The clock at the last move of thread `t` before move `j`. -/
def lastMove (moves : Pool.Schedule Env) (t : Nat) : Nat → Option Instant
  | 0 => none
  | j + 1 =>
    if moves[j]?.map Prod.fst = some t then moves[j]?.map (·.2.now) else lastMove moves t j

theorem lastMove_eq {moves : Pool.Schedule Env} {i j t : Nat} (hi : i < moves.length) (hij : i < j) (hj : j ≤ moves.length)
    (ht : moves[i].1 = t) (hlast : ∀ m (hm : m < moves.length), i < m → m < j → moves[m].1 ≠ t) :
    lastMove moves t j = some moves[i].2.now := by
  induction j with
  | zero => omega
  | succ j ih =>
    unfold lastMove
    rw [List.getElem?_eq_getElem (Nat.lt_of_succ_le hj), Option.map_some, Option.map_some]
    by_cases hij' : i = j
    · subst hij'
      rw [if_pos (congrArg some ht)]
    · rw [if_neg]
      · exact ih (by omega) (by omega) fun m hm hmi hmj => hlast m hm hmi (by omega)
      · intro hsome
        exact hlast j _ (by omega) (by omega) (Option.some.inj hsome)

theorem timeout_pos (o : Options) : 0 < (Dispatcher.new o).timeout := by
  show 0 < if o.timeout ≤ 0 then 10 * second else o.timeout
  split
  · decide
  · linarith

section InTime

variable [Library] {d : Dispatcher} {w : World} {ts : List Task} {moves : Pool.Schedule Env}

/-- A claim is made under a clock reading of its thread. -/
theorem claim_read {i t : Nat} (hi : i ≤ moves.length) {now b : Instant} {limit : Nat}
    (hs : (workingUpto d w ts moves i).next? t = some (.db (.claimDeliveries now b limit))) :
    b = now - d.claimStale ∧ ∃ m, ∃ hm : m < moves.length, m < i ∧ moves[m].2.now = now := by
  obtain ⟨task, _, hwarrant⟩ := working_may hs
  have hread : b = now - d.claimStale ∧
      own t (workingUpto d w ts moves i).history = [⟨.now, now⟩] := by
    cases task with
    | tick => exact hwarrant
    | emit | createWebhook | updateWebhook | setWebhookDisabled | deleteWebhook =>
      exact hwarrant.elim
  refine ⟨hread.1, ?_⟩
  have hmem : (⟨.now, now⟩ : (s : Stmt) × s.Ans) ∈ own t (workingUpto d w ts moves i).history := by
    rw [hread.2]
    exact List.mem_singleton_self _
  obtain ⟨m, e, hmi, hasked⟩ := Pool.history_origin hi rfl (Interleave.mem_own.mp hmem)
  obtain ⟨hm, hmove⟩ := List.getElem?_eq_some_iff.mp hasked.move
  refine ⟨m, hm, hmi, ?_⟩
  rw [hmove]
  exact congrArg Prod.fst (Option.some.inj hasked.exec)

/-- **The leases of a run in time.** -/
theorem leased_upto (h : InTime d w ts moves) {i : Nat} (hi : i ≤ moves.length) :
    Leased d (Before moves i) (workingUpto d w ts moves i).history
      (workingUpto d w ts moves i).world := by
  induction i with
  | zero =>
    refine ⟨?_, fun _ => List.nodup_nil, ?_⟩
    · intro t del hdel
      cases hdel
    · intro t k del hdel
      cases hdel
  | succ i ih =>
    have ih := ih (by omega)
    have hyoung (stamp : Instant) (hb : Before moves (i + 1) stamp) : Before moves i stamp :=
      fun m hm hmi => hb m hm (by omega)
    rcases working_asked _ _ _ hi with hs | ⟨s, x, hasked, hhist⟩
    · rw [hs]
      exact ⟨ih.known, ih.distinct, fun t k del hdel hopen hb =>
        ih.held t k del hdel hopen (hyoung _ hb)⟩
    · rw [hhist]
      refine ih.step hyoung ?_ ?_ hasked.exec
      · rintro now b limit rfl stamp hb
        obtain ⟨rfl, m, hm, hmi, hread⟩ := claim_read (by omega) hasked.next
        have hlt := hb m hm (by omega)
        linarith
      · rintro id o rfl
        obtain ⟨task, _, hwarrant⟩ := working_may hasked.next
        obtain ⟨_, del, hattempts, rfl⟩ := acts_of_about hwarrant rfl
        have hyoung := h i (by omega) _ _ _ hasked.next rfl
        obtain ⟨hopen, k, hbegun, hdel⟩ := hattempts
        exact ⟨(ih.held _ k del hdel (.inr ⟨hbegun, hopen⟩) hyoung).1, del,
          ⟨hopen, k, hbegun, hdel⟩, rfl⟩

/-- Who acts for a delivery in a run in time is the last who claimed it. -/
theorem holder_of_inTime (h : InTime d w ts moves) {i t id : Nat} (hi : i ≤ moves.length) {s : Stmt}
    (hs : (workingUpto d w ts moves i).next? t = some s) (habout : about? s = some id) :
    holder id (workingUpto d w ts moves i).history = some t := by
  obtain ⟨task, _, hwarrant⟩ := working_may hs
  obtain ⟨_, del, ⟨hopen, k, hbegun, hdel⟩, rfl⟩ := acts_of_about hwarrant habout
  exact ((leased_upto h hi).held t k del hdel (.inr ⟨hbegun, hopen⟩) (h i hi t s _ hs habout)).1

/-- **No delivery is sent twice at once** in a run whose claims cover their batches. -/
theorem no_double_send {o : Options} {pace : Duration} {n : Nat}
    (h : Covered (.new o) w ts moves pace n) : NoDoubleSend (.new o) w ts moves := by
  have hin := inTime_of_covered h (timeout_pos o).le
  intro i hi t u id ht hu
  have hholds := holder_of_inTime hin hi ht rfl
  exact Option.some.inj (hholds.symm.trans (holder_of_inTime hin hi hu rfl))

/-- A run that passes this check is paced. -/
theorem paced_of_check {pace : Duration} (hclock : (moves.map (·.2.now)).Pairwise (· ≤ ·))
    (hprompt : ∀ j (hj : j < moves.length), ∀ t, t < ts.length → ∀ last ∈ lastMove moves t j,
      ∀ s ∈ (workingUpto d w ts moves j).next? t, moves[j].2.now ≤ last + charge d pace s) :
    Paced d w ts moves pace where
  clock := by
    intro i j hi hj hij
    rcases Nat.lt_or_eq_of_le hij with hij | rfl
    · have hle := List.pairwise_iff_getElem.mp hclock i j (by simpa using hi) (by simpa using hj) hij
      simpa only [List.getElem_map] using hle
    · exact le_rfl
  prompt := by
    intro i j t s hi hj hij ht hlast htick hs
    exact hprompt j hj t (List.getElem?_eq_some_iff.mp htick).1 _
      (lastMove_eq hi hij hj.le ht hlast) s hs

end InTime

/-! ## Two runs

Deliveries of one webhook whose endpoint does not answer, and the polls of two dispatchers with
default options, over statements that take no time. -/

attribute [local instance] sealedLibrary

/-- A queue of `n` deliveries. -/
def queue (n : Nat) : World where
  webhooks := oneWebhook ""
  deliveries := (List.range n).foldl (fun t _ => t.insert (fun id => {
    id, webhookID := 1, event := "cert.issue", payload := "", nextAttempt := some 0 })
    fun _ => rfl) .empty

/-- Thread 0 claims and attempts `n` deliveries, each of which times out. -/
def slowly (n : Nat) : Pool.Schedule Env :=
  movesOf 0 2 { now := 0 } ++ (List.range n).flatMap fun k =>
    movesOf 0 2 { now := k * (10 * second) } ++
      movesOf 0 3 { now := (k + 1) * (10 * second), response := .error (.driver "timeout") }

/-- The second dispatcher polls while the first one attempts its last delivery of two. -/
def shortBatch : Pool.Schedule Env :=
  slowly 1 ++ movesOf 0 2 { now := 10 * second } ++ movesOf 1 4 { now := 15 * second }

/-- Two deliveries are attempted well within their claim. -/
theorem shortBatch_no_double_send :
    NoDoubleSend (.new {}) (queue 2) [.tick, .tick] shortBatch := by
  have hbatch : ∀ i, i < shortBatch.length + 1 → ∀ t, t < 2 →
      (cursorAt (.new {}) (queue 2) [.tick, .tick] shortBatch i t).batch.length ≤ 2 := by
    decide +kernel
  have hcovered : Covered (.new {}) (queue 2) [.tick, .tick] shortBatch 0 2 := {
    toPaced := paced_of_check (by decide +kernel) (by decide +kernel)
    pace_nonneg := le_rfl
    batch := fun i t hi ht =>
      hbatch i (Nat.lt_succ_of_le hi) t (List.getElem?_eq_some_iff.mp ht).1
    cover := by decide }
  exact no_double_send hcovered

/-- The first dispatcher has attempted twelve deliveries of thirteen when its claim runs out. -/
def longBatch : Pool.Schedule Env :=
  slowly 12 ++ movesOf 0 2 { now := 120 * second } ++
    movesOf 1 4 { now := 121 * second, rank := fun id => 13 - id }

/-- **The thirteenth delivery of a batch is sent twice at once**, with nothing slower than the timeout
of the client. -/
theorem longBatch_double_send :
    Paced (.new {}) (queue 13) [.tick, .tick] longBatch 0 ∧
      ¬ NoDoubleSend (.new {}) (queue 13) [.tick, .tick] longBatch := by
  constructor
  · exact paced_of_check (by decide +kernel) (by decide +kernel)
  · intro h
    have hboth : (workingUpto (.new {}) (queue 13) [.tick, .tick] longBatch 68).next? 0 =
        some (.await 13) ∧ (workingUpto (.new {}) (queue 13) [.tick, .tick] longBatch 68).next? 1 =
        some (.await 13) := by decide +kernel
    exact absurd (h 68 (by decide +kernel) 0 1 13 hboth.1 hboth.2) (by decide)

end Goca.Webhooks
