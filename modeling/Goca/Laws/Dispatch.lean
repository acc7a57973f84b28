import Goca.Lib.Trace
import Goca.Webhooks.Dispatcher

/-!
# What a tick asks

A tick claims a batch and attempts its deliveries one after the other. A `Cursor` says where it
stands in that batch, and is read off what it has asked; `TickWarrant` says what it may ask there.
Both are about the text of the programs: nothing here depends on what the tables hold.
-/

set_option autoImplicit false

namespace Goca.Webhooks

open Interleave (Act Prog Pool Trace Event own)
open Interleave.Act (Traced Uses traced_pure traced_throw traced_ite uses_pure uses_ite)

/-! ## The cursor of a thread -/

/-- Where a thread stands in the batch that it claimed: under which clock reading it claimed it, how
many attempts it has begun, and, until an attempt is recorded, what the lookup of its webhook was
answered. -/
structure Cursor where
  claimedAt : Instant := 0
  batch : List Delivery := []
  begun : Nat := 0
  looked : Option (Except Go.Error (Option Webhook)) := none

/-- How a statement and its answer move the cursor. -/
def Cursor.next (c : Cursor) : (s : Stmt) → s.Ans → Cursor
  | .db (.claimDeliveries t _ _), .ok batch => ⟨t, batch, 0, none⟩
  | .db (.selectWebhook _), x => { c with begun := c.begun + 1, looked := some x }
  | .db (.recordResult _ _), _ => { c with looked := none }
  | _, _ => c

/-- The cursor of a thread that has asked this. -/
def cursor (q : Trace sig) : Cursor := q.foldl (fun c a => c.next a.1 a.2) {}

@[simp] theorem cursor_nil : cursor [] = {} := rfl

theorem cursor_snoc (q : Trace sig) (s : Stmt) (x : s.Ans) :
    cursor (q ++ [⟨s, x⟩]) = (cursor q).next s x := by
  rw [cursor, List.foldl_append]
  rfl

/-- Only a claim changes the batch. -/
theorem Cursor.next_of_ne {s : Stmt} (h : ∀ t b limit, s ≠ .db (.claimDeliveries t b limit))
    (c : Cursor) (x : s.Ans) :
    (c.next s x).batch = c.batch ∧ (c.next s x).claimedAt = c.claimedAt := by
  cases s with
  | now | send r | await i => exact ⟨rfl, rfl⟩
  | db s =>
    cases s with
    | claimDeliveries t b limit => exact absurd rfl (h t b limit)
    | _ => exact ⟨rfl, rfl⟩

/-- The attempt in progress is one at this delivery. -/
def Cursor.Attempts (c : Cursor) (del : Delivery) : Prop :=
  c.looked.isSome = true ∧ ∃ k, c.begun = k + 1 ∧ c.batch[k]? = some del

/-- The attempt at delivery `k` of the batch is still to come, or in progress. -/
def Cursor.Open (c : Cursor) (k : Nat) : Prop :=
  c.begun ≤ k ∨ c.begun = k + 1 ∧ c.looked.isSome = true

/-- A statement that is no claim leaves an attempt open only where it was. -/
theorem Cursor.open_of_next {c : Cursor} {s : Stmt} {x : s.Ans} {k : Nat}
    (hs : ∀ now b limit, s ≠ .db (.claimDeliveries now b limit)) (h : (c.next s x).Open k) :
    c.Open k := by
  cases s with
  | now | send r | await i => exact h
  | db s =>
    cases s with
    | claimDeliveries now b limit => exact absurd rfl (hs now b limit)
    | selectWebhook id =>
      left
      rcases h with hle | ⟨heq, _⟩
      · have hle : c.begun + 1 ≤ k := hle
        omega
      · have heq : c.begun + 1 = k + 1 := heq
        omega
    | recordResult id o =>
      rcases h with hle | ⟨_, hsome⟩
      · exact .inl hle
      · cases hsome
    | _ => exact h

/-- A batch of distinct deliveries has each of them at one place. -/
theorem index_eq {batch : List Delivery} (h : (batch.map Delivery.id).Nodup) {k k' : Nat}
    {del del' : Delivery} (hk : batch[k]? = some del) (hk' : batch[k']? = some del')
    (hid : del.id = del'.id) : k = k' := by
  refine (List.getElem?_inj ?_ h).mp ?_
  · rw [List.length_map]
    exact (List.getElem?_eq_some_iff.mp hk).1
  · rw [List.getElem?_map, List.getElem?_map, hk, hk', Option.map_some, Option.map_some, hid]

section Warrant

variable [Library]

/-- After this answer to the lookup of its webhook an attempt ends without a record. -/
def GivesUp (x : Except Go.Error (Option Webhook)) : Prop :=
  ∀ wh key, x = .ok (some wh) → signingKey wh ≠ .ok key

/-- No attempt is in progress, or one that ends here. -/
def Cursor.Between (c : Cursor) : Prop := ∀ x, c.looked = some x → GivesUp x

/-- A failure is to be tried again exactly while attempts are left, by the count of this copy. -/
def Retries (d : Dispatcher) (del : Delivery) : Outcome → Prop
  | .delivered _ => True
  | .failed _ _ next => next.isSome = true ↔ ((del.attempts + 1 : Nat) : Int) < d.maxAttempts

/-- **What a tick may ask**, having asked `q`: it claims once, right after it has read its clock; it begins an
attempt after the attempt before, in the order of the batch; what it sends, awaits and records is
about the attempt in progress. -/
def TickWarrant (d : Dispatcher) (q : Trace sig) : Stmt → Prop
  | .now => True
  | .db (.claimDeliveries t staleBefore _) =>
    staleBefore = t - d.claimStale ∧ q = [⟨.now, t⟩]
  | .db (.selectWebhook id) =>
    (cursor q).Between ∧ ∃ del, (cursor q).batch[(cursor q).begun]? = some del ∧ del.webhookID = id
  | .send r => ∃ del, (cursor q).Attempts del ∧ del.id = r.delivery
  | .await id => ∃ del, (cursor q).Attempts del ∧ del.id = id
  | .db (.recordResult id o) => ∃ del, (cursor q).Attempts del ∧ del.id = id ∧ Retries d del o
  | .db _ => False

/-- Where a tick stands when it has come to its end. -/
def Cursor.Finished (c : Cursor) : Prop := c.begun = c.batch.length ∧ c.Between

/-- What the other tasks ask: nothing that is a dispatcher's, and a new delivery is a fresh one. -/
def Aside : Stmt → Prop
  | .now => True
  | .db (.claimDeliveries _ _ _) | .db (.recordResult _ _) | .send _ | .await _ => False
  | .db (.insertDelivery n) => n.status = .pending ∧ n.attempts = 0 ∧ n.claimedAt = none
  | .db _ => True

/-- What a task may ask. -/
def Task.Warrant (d : Dispatcher) : Task → Trace sig → Stmt → Prop
  | .tick => TickWarrant d
  | _ => fun _ => Aside

end Warrant

/-! ## The tick -/

section Tick

variable {ε : Type} {d : Dispatcher} {q : Trace sig}

/-- A statement whose answer, error included, is handed on. -/
theorem db_attempt_traced {α : Type} {may : Trace sig → Stmt → Prop} {s : HookStmt}
    {f : Except Go.Error s.Res → Except Go.Error α} (h : may q (.db s)) :
    (((db s).mapResult f : Handler Go.Error α).attempt : Handler ε _).Traced may
      (fun q' r => ∃ x, q' = q ++ [⟨.db s, x⟩] ∧ r = f x) q := by
  refine Prog.traced_ask.mpr ⟨h, fun x => Prog.traced_pure.mpr ?_⟩
  rintro _ ⟨⟩
  exact ⟨x, rfl, rfl⟩

variable [Library]

/-- A record ends the attempt in progress. -/
theorem record_traced {del : Delivery} {o : Outcome} (hc : (cursor q).Attempts del)
    (ho : Retries d del o) :
    (((recordWebhookDeliveryResult del.id o).attempt : Handler ε _) >>= fun _ =>
      pure ()).Traced (TickWarrant d) (fun q' _ => cursor q' = { cursor q with looked := none })
      q := by
  refine (db_attempt_traced ⟨del, hc, rfl, ho⟩).bind ?_
  rintro _ _ _ ⟨x, rfl, _⟩
  exact traced_pure (cursor_snoc q (.db (.recordResult del.id o)) x)

/-- The clock does not move the cursor. -/
theorem now_traced :
    (now : Handler ε Instant).Traced (TickWarrant d)
      (fun q' t => q' = q ++ [⟨.now, t⟩]) q := by
  refine Prog.traced_ask.mpr ⟨trivial, fun x => Prog.traced_pure.mpr ?_⟩
  rintro _ ⟨⟩
  rfl

theorem recordFailure_traced {del : Delivery} (hc : (cursor q).Attempts del) (httpStatus : Int)
    (err : String) :
    (d.recordFailure del httpStatus err : Handler ε Unit).Traced (TickWarrant d)
      (fun q' _ => cursor q' = { cursor q with looked := none }) q := by
  refine Traced.bind (m := fun q' next => cursor q' = cursor q ∧
    Retries d del (.failed httpStatus err next)) ?_ ?_
  · refine traced_ite (fun hlt => ?_) fun hlt => ?_
    · refine now_traced.bind ?_
      rintro _ t _ rfl
      refine traced_pure ⟨cursor_snoc q .now t, ?_⟩
      exact ⟨fun _ => hlt, fun _ => rfl⟩
    · refine traced_pure ⟨rfl, ?_⟩
      exact ⟨fun h => absurd h Bool.false_ne_true, fun h => absurd h hlt⟩
  · rintro q' next _ ⟨hq, hr⟩
    rw [← hq]
    exact record_traced (hq ▸ hc) hr

theorem recordResponse_traced {del : Delivery} (hc : (cursor q).Attempts del)
    (resp : Except Go.Error Int) :
    (d.recordResponse del resp : Handler ε Unit).Traced (TickWarrant d)
      (fun q' _ => cursor q' = { cursor q with looked := none }) q := by
  cases resp with
  | error e => exact recordFailure_traced hc 0 e.text
  | ok status =>
    refine traced_ite (fun _ => ?_) fun _ => recordFailure_traced hc status _
    exact record_traced hc trivial

theorem httpDo_traced {del : Delivery} {r : Request} (hc : (cursor q).Attempts del)
    (hr : del.id = r.delivery) :
    (httpDo r : Handler ε _).Traced (TickWarrant d) (fun q' _ => cursor q' = cursor q) q := by
  have hsent : cursor (q ++ [⟨.send r, ()⟩]) = cursor q := cursor_snoc q _ _
  refine Prog.traced_ask.mpr ⟨⟨del, hc, hr⟩, fun x => ?_⟩
  refine Prog.traced_ask.mpr ⟨⟨del, hsent ▸ hc, hr⟩, fun y => Prog.traced_pure.mpr ?_⟩
  rintro a -
  rw [cursor_snoc, hsent]
  rfl

/-- **One attempt** moves the cursor on by one, and is recorded unless it gives up. -/
theorem deliver_traced {del : Delivery} (hbetween : (cursor q).Between)
    (hdel : (cursor q).batch[(cursor q).begun]? = some del) :
    (d.deliver del : Handler ε Unit).Traced (TickWarrant d)
      (fun q' _ => (cursor q').batch = (cursor q).batch ∧ (cursor q').begun = (cursor q).begun + 1 ∧
        (cursor q').Between) q := by
  refine (db_attempt_traced ⟨hbetween, del, hdel, rfl⟩).bind ?_
  rintro _ wh _ ⟨x, rfl, rfl⟩
  have hat : cursor (q ++ [⟨.db (.selectWebhook del.webhookID), x⟩]) =
      { cursor q with begun := (cursor q).begun + 1, looked := some x } :=
    cursor_snoc q (.db (.selectWebhook del.webhookID)) x
  have hattempts :
      (cursor (q ++ [⟨.db (.selectWebhook del.webhookID), x⟩])).Attempts del := by
    rw [hat]
    exact ⟨rfl, _, rfl, hdel⟩
  -- an attempt that gives up stays the one in progress
  have hgives (h : GivesUp x) : (pure () : Handler ε Unit).Traced (TickWarrant d)
      (fun q' _ => (cursor q').batch = (cursor q).batch ∧ (cursor q').begun = (cursor q).begun + 1 ∧
        (cursor q').Between) (q ++ [⟨.db (.selectWebhook del.webhookID), x⟩]) := by
    refine traced_pure ?_
    rw [hat]
    refine ⟨rfl, rfl, ?_⟩
    rintro _ ⟨⟩
    exact h
  have hrecorded {y : Handler ε Unit} {q' : Trace sig}
      (hq : cursor q' = cursor (q ++ [⟨.db (.selectWebhook del.webhookID), x⟩]))
      (h : y.Traced (TickWarrant d) (fun q'' _ => cursor q'' = { cursor q' with looked := none })
        q') :
      y.Traced (TickWarrant d) (fun q' _ => (cursor q').batch = (cursor q).batch ∧
        (cursor q').begun = (cursor q).begun + 1 ∧ (cursor q').Between) q' := by
    refine h.mono ?_
    intro q'' _ hc
    rw [hc, hq, hat]
    refine ⟨rfl, rfl, ?_⟩
    rintro _ ⟨⟩
  cases hwh : row x with
  | error e =>
    refine hgives ?_
    rintro wh key rfl
    cases hwh
  | ok wh =>
    cases hkey : signingKey wh with
    | error e =>
      simp only [hkey]
      refine hgives ?_
      rintro wh' key rfl
      cases hwh
      rw [hkey]
      nofun
    | ok key =>
      simp only [hkey]
      cases hurl : Library.checkURL wh.url with
      | error e => exact hrecorded rfl (recordFailure_traced hattempts 0 e.text)
      | ok u =>
        refine (httpDo_traced hattempts rfl).bind ?_
        intro q₂ resp _ hq₂
        exact hrecorded hq₂ (recordResponse_traced (hq₂ ▸ hattempts) resp)

/-- **The loop** over what is left of the batch. -/
theorem deliverEach_traced {rest : List Delivery} (hbetween : (cursor q).Between)
    (hrest : (cursor q).batch.drop (cursor q).begun = rest)
    (hle : (cursor q).begun ≤ (cursor q).batch.length) :
    (d.deliverEach rest : Handler ε Unit).Traced (TickWarrant d)
      (fun q' _ => (cursor q').Finished) q := by
  induction rest generalizing q with
  | nil =>
    refine traced_pure ⟨?_, hbetween⟩
    have := List.drop_eq_nil_iff.mp hrest
    omega
  | cons del rest ih =>
    have hdel : (cursor q).batch[(cursor q).begun]? = some del := by
      rw [← List.head?_drop, hrest]
      rfl
    refine (deliver_traced hbetween hdel).bind ?_
    rintro q' _ _ ⟨hbatch, hbegun, hbetween'⟩
    refine ih hbetween' ?_ ?_
    · rw [hbatch, hbegun, ← List.tail_drop, hrest]
      rfl
    · rw [hbatch, hbegun]
      exact (List.getElem?_eq_some_iff.mp hdel).1

/-- **A tick asks what its warrant allows**, and ends when its batch does. -/
theorem tick_traced :
    (d.tick : Handler ε Unit).Traced (TickWarrant d) (fun q' _ => (cursor q').Finished) [] := by
  refine now_traced.bind ?_
  rintro _ t _ rfl
  refine Traced.bind (m := fun q' due => q' = [⟨.now, t⟩] ++
    [⟨.db (.claimDeliveries t (t - d.claimStale) 100), due⟩]) ?_ ?_
  · refine Prog.traced_ask.mpr ⟨?_, fun x => Prog.traced_pure.mpr ?_⟩
    · exact ⟨rfl, rfl⟩
    · rintro _ ⟨⟩
      rfl
  · rintro _ due _ rfl
    cases due with
    | error e =>
      refine traced_pure ⟨rfl, ?_⟩
      rintro _ ⟨⟩
    | ok due =>
      refine deliverEach_traced ?_ rfl (Nat.zero_le _)
      rintro _ ⟨⟩

end Tick

/-! ## The other tasks -/

section Aside

variable {ε : Type}

theorem db_uses (s : HookStmt) (h : Aside (.db s)) : (db s).Uses Aside :=
  .ask h fun _ => .pure _

theorem now_uses : (now : Handler ε Instant).Uses Aside := .ask trivial fun _ => .pure _

theorem getWebhook_uses (id : Nat) : (getWebhook id).Uses Aside :=
  (db_uses (.selectWebhook id) trivial).mapResult _

theorem createWebhookDelivery_uses (webhookID : Nat) (event payload : String) :
    (createWebhookDelivery webhookID event payload).Uses Aside := by
  refine now_uses.bind ?_
  intro t
  refine (db_uses (.insertDelivery _) ⟨rfl, rfl, rfl⟩).bind ?_
  intro id
  exact (db_uses (.selectDelivery id) trivial).mapResult _

theorem emitEach_uses (marshal : Event → String) (actor action target detail ip : String)
    (webhooks : List Webhook) :
    (emitEach marshal actor action target detail ip webhooks : Handler ε Unit).Uses Aside := by
  induction webhooks with
  | nil => exact uses_pure ()
  | cons wh rest ih =>
    refine uses_ite (fun _ => ih) fun _ => ?_
    refine now_uses.bind fun t => ?_
    refine now_uses.bind fun ts => ?_
    exact (createWebhookDelivery_uses _ _ _).attempt.bind fun _ => ih

theorem emit_uses (marshal : Event → String) (actor action target detail ip : String) :
    (emit marshal actor action target detail ip : Handler ε Unit).Uses Aside := by
  refine (db_uses .listWebhooks trivial).attempt.bind ?_
  intro webhooks
  cases webhooks with
  | error e => exact uses_pure ()
  | ok webhooks => exact emitEach_uses marshal actor action target detail ip webhooks

theorem createWebhook_uses (w : Webhook) : (createWebhook w).Uses Aside :=
  (db_uses (.insertWebhook _) trivial).bind fun id => getWebhook_uses id

theorem updateWebhook_uses (w : Webhook) : (updateWebhook w).Uses Aside := by
  refine Uses.bind ?_ ?_
  · refine uses_ite (fun _ => ?_) fun _ => uses_pure _
    exact (getWebhook_uses w.id).bind fun _ => uses_pure _
  · intro secret
    exact ((db_uses (.updateWebhook _) trivial).mapResult _).bind fun _ => getWebhook_uses w.id

variable [Library]

/-- **A task asks what its warrant allows**, and a tick ends with its batch. -/
theorem serve_warrant (d : Dispatcher) (task : Task) :
    (task.serve d).Traced (task.Warrant d) (fun q _ => task = .tick → (cursor q).Finished) [] := by
  have haside {p : Prog sig (Except Go.Error Unit)} (hp : p.Uses Aside) (hne : task ≠ .tick) :
      p.Traced (fun _ => Aside) (fun q _ => task = .tick → (cursor q).Finished) [] :=
    hp.traced.mono (fun _ _ => id) fun _ _ _ h => absurd h hne
  cases task with
  | tick =>
    refine Prog.Traced.bind tick_traced ?_
    intro q r _ hr
    refine Prog.traced_pure.mpr fun _ => ?_
    cases r with
    | error e => exact e.elim
    | ok u => exact hr u rfl
  | emit marshal actor action target detail ip =>
    exact haside ((emit_uses marshal actor action target detail ip).mapError _) nofun
  | createWebhook w => exact haside ((createWebhook_uses w).mapResult _) nofun
  | updateWebhook w => exact haside ((updateWebhook_uses w).mapResult _) nofun
  | setWebhookDisabled id disabled =>
    exact haside ((db_uses (.setWebhookDisabled id disabled) trivial).mapResult _) nofun
  | deleteWebhook id => exact haside ((db_uses (.deleteWebhook id) trivial).mapResult _) nofun

end Aside

/-! ## Runs -/

section Runs

variable [Library] {d : Dispatcher} {w : World} {ts : List Task} {moves : Pool.Schedule Env}
  {i t : Nat}

/-- What is known of the program of every task is known of every thread of a run. -/
theorem working_of_serve {m : Task → Trace sig → Stmt → Prop} {r : Task → Trace sig → Prop}
    (h : ∀ task : Task, (task.serve d).Traced (m task) (fun q _ => r task q) []) (w : World)
    (ts : List Task) (moves : Pool.Schedule Env) (i : Nat) :
    (workingUpto d w ts moves i).Traced (fun t q s => ∃ task, ts[t]? = some task ∧ m task q s)
      (fun t q _ => ∃ task, ts[t]? = some task ∧ r task q) := by
  refine (Pool.run_traced Pool.lawful_init (Pool.traced_init ?_) _).2
  intro t p hp
  rw [List.getElem?_map] at hp
  obtain ⟨task, htask, rfl⟩ := Option.map_eq_some_iff.mp hp
  exact (h task).mono (fun _ _ hs => ⟨task, htask, hs⟩) fun _ _ hr => ⟨task, htask, hr⟩

/-- What move `i` does: nothing, or one statement of its thread. -/
theorem working_asked (d : Dispatcher) (w : World) (ts : List Task) (h : i < moves.length) :
    workingUpto d w ts moves (i + 1) = workingUpto d w ts moves i ∨ ∃ s x,
      Pool.AskedAt exec (working d w ts) moves i moves[i].1 moves[i].2 s x ∧
        (workingUpto d w ts moves (i + 1)).history =
          (workingUpto d w ts moves i).history ++ [⟨moves[i].1, s, x⟩] :=
  Pool.upto_asked exec (working d w ts) h

/-- A thread that has something to ask asks it when it moves. -/
theorem working_moves (h : i < moves.length) {s : Stmt}
    (hs : (workingUpto d w ts moves i).next? moves[i].1 = some s) : ∃ x,
      Pool.AskedAt exec (working d w ts) moves i moves[i].1 moves[i].2 s x ∧
        (workingUpto d w ts moves (i + 1)).history =
          (workingUpto d w ts moves i).history ++ [⟨moves[i].1, s, x⟩] := by
  rcases working_asked d w ts h with hsame | ⟨s', x, hasked, hhist⟩
  · exfalso
    obtain ⟨k, hk⟩ := Pool.next?_eq_some.mp hs
    have hanswered : (exec moves[i].2 (workingUpto d w ts moves i).world s).isSome = true := by
      cases s <;> rfl
    obtain ⟨⟨x, w'⟩, hx⟩ := Option.isSome_iff_exists.mp hanswered
    have hstep : workingUpto d w ts moves (i + 1) = _ :=
      (Pool.upto_succ exec (working d w ts) h).trans (Pool.step_of_ask hk hx)
    have hlength := congrArg (fun σ => σ.history.length) (hsame.symm.trans hstep)
    simp only [List.length_append, List.length_singleton] at hlength
    exact Nat.succ_ne_self _ hlength.symm
  · obtain rfl := Option.some.inj (hs.symm.trans hasked.next)
    exact ⟨x, hasked, hhist⟩

/-- A move of another thread changes nothing for a thread. -/
theorem working_other (d : Dispatcher) (w : World) (ts : List Task) (h : i < moves.length)
    (hne : moves[i].1 ≠ t) :
    own t (workingUpto d w ts moves (i + 1)).history = own t (workingUpto d w ts moves i).history ∧
      (workingUpto d w ts moves (i + 1)).next? t = (workingUpto d w ts moves i).next? t := by
  rcases Pool.upto_cases exec (working d w ts) h with hsame | ⟨s, k, x, w', _, _, hstep⟩
  · have hsame : workingUpto d w ts moves (i + 1) = workingUpto d w ts moves i := hsame
    rw [hsame]
    exact ⟨rfl, rfl⟩
  · have hstep : workingUpto d w ts moves (i + 1) = _ := hstep
    rw [hstep]
    exact ⟨Interleave.own_snoc_of_ne hne _ _ _, Pool.next?_set_of_ne _ _ hne _ _⟩

/-- What a thread asks next is what its task may ask. -/
theorem working_may {s : Stmt} (h : (workingUpto d w ts moves i).next? t = some s) :
    ∃ task, ts[t]? = some task ∧
      task.Warrant d (own t (workingUpto d w ts moves i).history) s :=
  Pool.next_allowed (working_of_serve (serve_warrant d) w ts moves i) h

/-- A thread that asks nothing more has ended as its task does. -/
theorem working_ended {m : Task → Trace sig → Stmt → Prop} {r : Task → Trace sig → Prop}
    (h : ∀ task : Task, (task.serve d).Traced (m task) (fun q _ => r task q) []) {task : Task}
    (htask : ts[t]? = some task) (hnone : (workingUpto d w ts moves i).next? t = none) :
    r task (own t (workingUpto d w ts moves i).history) := by
  have hlen : (workingUpto d w ts moves i).threads.length = ts.length := by
    rw [workingUpto, Pool.upto, Pool.length_threads_run]
    exact List.length_map _
  have ht : t < (workingUpto d w ts moves i).threads.length := by
    rw [hlen]
    exact (List.getElem?_eq_some_iff.mp htask).1
  obtain ⟨_, task', htask', hr⟩ := Pool.ended (working_of_serve h w ts moves i) ht hnone
  rwa [Option.some.inj (htask.symm.trans htask')]

/-- A tick that asks nothing more has come to the end of its batch. -/
theorem finished_of_next?_none (htick : ts[t]? = some .tick)
    (h : (workingUpto d w ts moves i).next? t = none) :
    (cursor (own t (workingUpto d w ts moves i).history)).Finished :=
  working_ended (serve_warrant d) htick h rfl

end Runs

end Goca.Webhooks
