import Goca.Laws.Deliveries

/-!
# Deliveries of a disabled webhook

An event is queued for enabled webhooks only. A claim hands out what is due, whatever became of its
webhook in the meantime, and an attempt reads the row of the webhook for its endpoint and its key,
but not for its switch. So a webhook is silent from its disabling on where nothing is left of the
time before: all its deliveries are finished, no emission that has listed it as an enabled one is
under way, and no poll has an attempt at one of its deliveries before it. `Settled` says so of a
run, and `Calm` is the invariant that carries it: every unfinished delivery has an enabled
webhook.
-/

set_option autoImplicit false

namespace Goca.Webhooks

open Sql (Table)
open Goca.Store (Fault)
open Interleave (Act Prog Pool Trace own own_snoc_self own_snoc_of_ne)
open Interleave.Act (Traced Uses traced_pure traced_ite uses_pure uses_ite)

/-- A webhook is there, and not disabled. -/
def Enabled (w : World) (id : Nat) : Prop :=
  ∃ wh, w.webhooks.get? id = some wh ∧ wh.disabled = false

/-- A webhook was there, and is not disabled where it still is. -/
def NotDisabled (w : World) (id : Nat) : Prop :=
  id ≤ w.webhooks.seq ∧ ∀ wh, w.webhooks.get? id = some wh → wh.disabled = false

/-- Every delivery that is not finished has an enabled webhook. -/
def Quiet (w : World) : Prop :=
  ∀ r ∈ w.deliveries.rows, r.status.terminal = false → Enabled w r.webhookID

/-- The webhook that a statement disables. -/
def disables? : Stmt → Option Nat
  | .db (.updateWebhook n) => if n.disabled = true then some n.id else none
  | .db (.setWebhookDisabled id disabled) => if disabled = true then some id else none
  | _ => none

/-- Whether an answer lists a webhook as an enabled one. -/
def lists (id : Nat) : (s : Stmt) × s.Ans → Bool
  | ⟨.db .listWebhooks, .ok webhooks⟩ => webhooks.any fun wh => wh.id == id && !wh.disabled
  | _ => false

/-- Whether a thread that has asked this has listed a webhook as an enabled one. -/
def listed (id : Nat) (q : Trace sig) : Bool := q.any (lists id)

section Laws

variable [Library] (d : Dispatcher) (w : World) (ts : List Task) (moves : Pool.Schedule Env)

/-- At move `j` thread `t` claims a delivery. -/
def ClaimsAt (j t : Nat) (del : Delivery) : Prop := ∃ e now staleBefore limit batch,
  Pool.AskedAt exec (working d w ts) moves j t e (.db (.claimDeliveries now staleBefore limit))
    (.ok batch) ∧ del ∈ batch

/-- **A disabled webhook is silent**: a thread that claims a delivery whose webhook is disabled, or
gone, never comes to send its request. -/
def Silent : Prop := ∀ j k t del r, ClaimsAt d w ts moves j t del → j < k → k ≤ moves.length →
  (workingUpto d w ts moves k).next? t = some (.send r) → r.delivery = del.id →
    Enabled (workingUpto d w ts moves j).world del.webhookID

/-- Before move `i` thread `t` is under way and has listed a webhook as an enabled one. -/
def Listed (i t id : Nat) : Prop :=
  (workingUpto d w ts moves i).next? t ≠ none ∧
    listed id (own t (workingUpto d w ts moves i).history) = true

/-- Before move `i` thread `t` is under way, and an attempt at a delivery of a webhook is in
progress or still to come. -/
def Attempted (i t id : Nat) : Prop :=
  (workingUpto d w ts moves i).next? t ≠ none ∧ ∃ k del r,
    (cursorAt d w ts moves i t).batch[k]? = some del ∧ (cursorAt d w ts moves i t).Open k ∧
      (workingUpto d w ts moves i).world.deliveries.get? del.id = some r ∧ r.webhookID = id

/-- **A settled webhook**: before move `i` its deliveries are finished, and no thread goes on for it
as for an enabled one. -/
structure SettledAt (i id : Nat) : Prop where
  finished : ∀ r ∈ (workingUpto d w ts moves i).world.deliveries.rows, r.webhookID = id →
    r.status.terminal = true
  unlisted : ∀ t, ¬ Listed d w ts moves i t id
  unattempted : ∀ t, ¬ Attempted d w ts moves i t id

/-- A run in which an enabled webhook is disabled only once it is settled. -/
def Settled : Prop := ∀ i t e s id, moves[i]? = some (t, e) →
  (workingUpto d w ts moves i).next? t = some s → disables? s = some id → e.fault.commits = true →
    Enabled (workingUpto d w ts moves i).world id → SettledAt d w ts moves i id

/-- What lies before move `i` of a settled run: the queue is quiet, and whatever a thread goes on
for as for an enabled webhook is one. -/
structure Calm (i : Nat) : Prop where
  quiet : Quiet (workingUpto d w ts moves i).world
  listed : ∀ t id, Listed d w ts moves i t id →
    NotDisabled (workingUpto d w ts moves i).world id
  attempted : ∀ t id, Attempted d w ts moves i t id →
    Enabled (workingUpto d w ts moves i).world id

end Laws

theorem quiet_fresh (webhooks : Table Webhook) : Quiet (.fresh webhooks) := by
  intro r hr
  cases hr

/-! ## What an event queues -/

theorem listed_snoc (id : Nat) (q : Trace sig) (a : (s : Stmt) × s.Ans) :
    listed id (q ++ [a]) = (listed id q || lists id a) := by
  unfold listed
  rw [List.any_append, List.any_cons, List.any_nil, Bool.or_false]

/-- What has been listed stays listed. -/
theorem listed_extend {id : Nat} {q q' : Trace sig} (h : listed id q = true) (hq : q <+: q') :
    listed id q' = true := by
  obtain ⟨a, ha, hid⟩ := List.any_eq_true.mp h
  exact List.any_eq_true.mpr ⟨a, hq.subset ha, hid⟩

/-- A delivery is queued for a webhook that was listed as an enabled one. -/
def QueueWarrant (q : Trace sig) (s : Stmt) : Prop :=
  ∀ n, s = .db (.insertDelivery n) → listed n.webhookID q = true

/-- Of the deliveries those of one webhook alone are queued. -/
def QueuesFor (id : Nat) (s : Stmt) : Prop := ∀ n, s = .db (.insertDelivery n) → n.webhookID = id

/-- No delivery is queued. -/
def QueuesNone (s : Stmt) : Prop := ∀ n, s ≠ .db (.insertDelivery n)

section Emit

variable {ε : Type} {q : Trace sig}

theorem createWebhookDelivery_queues (id : Nat) (event payload : String) :
    (createWebhookDelivery id event payload).Uses (QueuesFor id) := by
  refine Uses.bind (.ask (fun _ h => nomatch h) fun _ => .pure _) fun t => ?_
  refine Uses.bind (.ask ?_ fun _ => .pure _) fun k => ?_
  · rintro n ⟨⟩
    rfl
  · exact Uses.mapResult (x := db (.selectDelivery k))
      (.ask (fun _ h => nomatch h) fun _ => .pure _) _

/-- **The loop** queues for the enabled ones of the webhooks that were listed. -/
theorem emitEach_queues (marshal : Event → String) (actor action target detail ip : String)
    {webhooks : List Webhook}
    (h : ∀ wh ∈ webhooks, wh.disabled = false → listed wh.id q = true) :
    (emitEach marshal actor action target detail ip webhooks : Handler ε Unit).Traced QueueWarrant
      (fun _ _ => True) q := by
  induction webhooks generalizing q with
  | nil => exact traced_pure trivial
  | cons wh rest ih =>
    have hrest {q' : Trace sig} (hq : q <+: q') :
        ∀ wh ∈ rest, wh.disabled = false → listed wh.id q' = true := by
      intro wh' hmem hoff
      exact listed_extend (h wh' (List.mem_cons_of_mem _ hmem) hoff) hq
    refine traced_ite (fun _ => ih (hrest List.prefix_rfl)) fun hwanted => ?_
    have hon : listed wh.id q = true :=
      h wh List.mem_cons_self (Bool.not_eq_true _ ▸ (not_or.mp hwanted).1)
    have hnow {q' : Trace sig} :
        (now : Handler ε Instant).Traced QueueWarrant (fun _ _ => True) q' :=
      Prog.traced_ask.mpr ⟨fun _ h => (nomatch h), fun _ =>
        Prog.traced_pure.mpr fun _ _ => trivial⟩
    refine hnow.bind fun q₁ t hq₁ _ => hnow.bind fun q₂ ts hq₂ _ => ?_
    have hon := listed_extend hon (hq₁.trans hq₂)
    refine Traced.bind ((createWebhookDelivery_queues wh.id action _).attempt.keeps
      (J := fun q => listed wh.id q = true) ?_ ?_ hon) fun q₃ _ hq₃ _ => ?_
    · rintro q' _ hq' hs n rfl
      rw [hs n rfl]
      exact hq'
    · exact fun q' s x hq' _ => listed_extend hq' (List.prefix_append _ _)
    · exact ih (hrest ((hq₁.trans hq₂).trans hq₃))

/-- **An event** is queued for the webhooks that it has listed as enabled ones. -/
theorem emit_queues (marshal : Event → String) (actor action target detail ip : String) :
    (emit marshal actor action target detail ip : Handler ε Unit).Traced QueueWarrant
      (fun _ _ => True) [] := by
  refine (db_attempt_traced (f := id) (s := .listWebhooks) fun _ h => nomatch h).bind ?_
  rintro _ webhooks _ ⟨_, rfl, rfl⟩
  cases webhooks with
  | error e => exact traced_pure trivial
  | ok webhooks =>
    refine emitEach_queues marshal actor action target detail ip fun wh hmem hoff => ?_
    refine List.any_eq_true.mpr ⟨_, List.mem_singleton_self _, ?_⟩
    refine List.any_eq_true.mpr ⟨wh, hmem, ?_⟩
    rw [hoff, beq_self_eq_true]
    rfl

theorem getWebhook_queues (id : Nat) : (getWebhook id).Uses QueuesNone :=
  Uses.mapResult (x := db (.selectWebhook id)) (.ask (fun _ h => nomatch h) fun _ => .pure _) _

theorem affected_queues {s : HookStmt} {f : Except Go.Error s.Res → Except Go.Error Unit}
    (h : QueuesNone (.db s)) : ((db s).mapResult f).Uses QueuesNone :=
  Uses.mapResult (x := db s) (.ask h fun _ => .pure _) _

theorem createWebhook_queues (wh : Webhook) : (createWebhook wh).Uses QueuesNone :=
  Uses.bind (x := db (.insertWebhook _)) (.ask (fun _ h => nomatch h) fun _ => .pure _) fun id =>
    getWebhook_queues id

theorem updateWebhook_queues (wh : Webhook) : (updateWebhook wh).Uses QueuesNone := by
  refine Uses.bind ?_ fun secret => ?_
  · refine uses_ite (fun _ => ?_) fun _ => uses_pure _
    exact (getWebhook_queues wh.id).bind fun _ => uses_pure _
  · exact (affected_queues (s := .updateWebhook _) fun _ h => nomatch h).bind fun _ =>
      getWebhook_queues wh.id

/-- Every task queues deliveries for webhooks that it has listed as enabled ones. -/
theorem serve_queues [Library] {d : Dispatcher} (task : Task) :
    (task.serve d).Traced QueueWarrant (fun _ _ => True) [] := by
  have hnone {p : Prog sig (Except Go.Error Unit)} (hp : p.Uses QueuesNone) :
      p.Traced QueueWarrant (fun _ _ => True) [] :=
    hp.traced.mono (fun _ _ hs n h => absurd h (hs n)) fun _ _ _ => trivial
  cases task with
  | tick =>
    refine (serve_warrant d .tick).mono (fun q s hs n h => ?_) fun _ _ _ => trivial
    subst h
    exact hs.elim
  | emit marshal actor action target detail ip =>
    exact Prog.Traced.bind (emit_queues marshal actor action target detail ip) fun _ _ _ _ =>
      Prog.traced_pure.mpr trivial
  | createWebhook wh => exact hnone ((createWebhook_queues wh).mapResult _)
  | updateWebhook wh => exact hnone ((updateWebhook_queues wh).mapResult _)
  | setWebhookDisabled id disabled => exact hnone (affected_queues fun _ h => nomatch h)
  | deleteWebhook id => exact hnone (affected_queues fun _ h => nomatch h)

end Emit

/-! ## The row of a webhook -/

/-- The ways a statement changes the row of webhook `id`. -/
inductive WebhookStep (e : Env) (seq id : Nat) (s : Stmt) : Option Webhook → Option Webhook → Prop
  | same (r : Option Webhook) : WebhookStep e seq id s r r
  | inserted (r : Webhook) (hid : seq < id) : WebhookStep e seq id s none (some r)
  | updated (r r' : Webhook) (hcommits : e.fault.commits = true)
    (hoff : disables? s = some id ∨ r'.disabled = false) : WebhookStep e seq id s (some r) (some r')
  | deleted (r : Webhook) (hcommits : e.fault.commits = true) (hs : s = .db (.deleteWebhook id)) :
    WebhookStep e seq id s (some r) none

section Step

variable {e : Env} {w w' : World}

/-- **What a statement does to the row of a webhook.** -/
theorem webhook_step {s : Stmt} {x : s.Ans} (h : exec e w s = some (x, w')) (id : Nat) :
    WebhookStep e w.webhooks.seq id s (w.webhooks.get? id) (w'.webhooks.get? id) := by
  cases s with
  | now | send r | await i =>
    cases h
    exact .same _
  | db s =>
    refine exec_db_induction (P := fun w' => WebhookStep e w.webhooks.seq id (.db s)
      (w.webhooks.get? id) (w'.webhooks.get? id)) h (.same _) fun hcommits => ?_
    cases s with
    | listWebhooks | selectWebhook i | selectDelivery i | claimDeliveries t b limit
    | recordResult i o => exact .same _
    | insertDelivery n =>
      simp only [World.exec]
      split
      · exact .same _
      · exact .same _
    | insertWebhook n =>
      simp only [World.exec]
      split
      · exact .same _
      · show WebhookStep e _ id _ _ ((w.webhooks.insert _ _).get? id)
        rw [Table.get?_insert]
        by_cases hid : id = w.webhooks.seq + 1
        · rw [if_pos hid, Table.get?_eq_none_of_lt (by omega)]
          exact .inserted _ (by omega)
        · rw [if_neg hid]
          exact .same _
    | updateWebhook n =>
      refine Table.update_induction (P := WebhookStep e _ id _) w.webhooks (·.id == n.id)
        (fun h => { h with
          url := n.url, events := n.events, secretEnc := n.secretEnc, disabled := n.disabled })
        (fun _ => rfl) id .same ?_
      intro r hr hi
      refine .updated r _ hcommits ?_
      obtain rfl : n.id = id := (beq_iff_eq.mp hi).symm.trans hr
      cases hdisabled : n.disabled with
      | false => exact .inr rfl
      | true =>
        left
        simp only [disables?, hdisabled, if_true]
    | setWebhookDisabled i b =>
      refine Table.update_induction (P := WebhookStep e _ id _) w.webhooks (·.id == i)
        (fun h => { h with disabled := b }) (fun _ => rfl) id .same ?_
      intro r hr hi
      refine .updated r _ hcommits ?_
      obtain rfl : i = id := (beq_iff_eq.mp hi).symm.trans hr
      cases b with
      | false => exact .inr rfl
      | true => exact .inl rfl
    | deleteWebhook i =>
      show WebhookStep e _ id _ (w.webhooks.get? id) ((w.webhooks.delete _).get? id)
      cases hr : (w.webhooks.delete (·.id == i)).get? id with
      | some r =>
        rw [(Table.get?_delete.mp hr).1]
        exact .same _
      | none =>
        cases hold : w.webhooks.get? id with
        | none => exact .same _
        | some r =>
          refine .deleted r hcommits ?_
          by_contra hne
          have hid : r.id = id := Table.key_of_get? hold
          have hkept : (w.webhooks.delete (·.id == i)).get? id = some r := by
            refine Table.get?_delete.mpr ⟨hold, beq_eq_false_iff_ne.mpr ?_⟩
            rintro rfl
            exact hne (by rw [hid])
          rw [hkept] at hr
          cases hr

/-- The deliveries of a webhook go with it. -/
theorem deleted_deliveries {id : Nat} {x : Except Go.Error Nat} (hcommits : e.fault.commits = true)
    (h : exec e w (.db (.deleteWebhook id)) = some (x, w')) :
    ∀ r ∈ w'.deliveries.rows, r.webhookID ≠ id := by
  obtain ⟨_, rfl⟩ := exec_db h
  rw [Fault.apply_commits hcommits]
  intro r hr
  exact beq_eq_false_iff_ne.mp (Table.mem_delete.mp hr).2

/-- **An enabled webhook** is enabled still, or gone with its deliveries, where it is not
disabled. -/
theorem enabled_step {s : Stmt} {x : s.Ans} (h : exec e w s = some (x, w')) {id : Nat}
    (hon : Enabled w id) (hkeep : e.fault.commits = true → disables? s ≠ some id) :
    Enabled w' id ∨ ∀ r ∈ w'.deliveries.rows, r.webhookID ≠ id := by
  obtain ⟨wh, hget, hoff⟩ := hon
  have hstep := webhook_step h id
  rw [hget] at hstep
  generalize hget' : w'.webhooks.get? id = r' at hstep
  cases hstep with
  | same => exact .inl ⟨wh, hget', hoff⟩
  | updated _ r' hcommits hoff' =>
    exact .inl ⟨r', hget', hoff'.resolve_left (hkeep hcommits)⟩
  | deleted _ hcommits hs =>
    subst hs
    exact .inr (deleted_deliveries hcommits h)

theorem webhooks_seq_step {s : Stmt} {x : s.Ans} (h : exec e w s = some (x, w')) :
    w.webhooks.seq ≤ w'.webhooks.seq := by
  cases s with
  | now | send r | await i =>
    cases h
    exact Nat.le_refl _
  | db s =>
    refine exec_db_induction (P := fun w' => w.webhooks.seq ≤ w'.webhooks.seq) h
      (Nat.le_refl _) fun _ => ?_
    cases s with
    | listWebhooks | selectWebhook i | updateWebhook n | setWebhookDisabled i b
    | selectDelivery i | deleteWebhook i | claimDeliveries t b limit | recordResult i o =>
      exact Nat.le_refl _
    | insertDelivery n =>
      simp only [World.exec]
      split <;> exact Nat.le_refl _
    | insertWebhook n =>
      simp only [World.exec]
      split
      · exact Nat.le_refl _
      · exact Nat.le_succ _

theorem notDisabled_step {s : Stmt} {x : s.Ans} (h : exec e w s = some (x, w')) {id : Nat}
    (hon : NotDisabled w id)
    (hkeep : e.fault.commits = true → Enabled w id → disables? s ≠ some id) :
    NotDisabled w' id := by
  refine ⟨hon.1.trans (webhooks_seq_step h), fun wh' hget' => ?_⟩
  have hstep := webhook_step h id
  rw [hget'] at hstep
  generalize hget : w.webhooks.get? id = r at hstep
  cases hstep with
  | same => exact hon.2 wh' hget
  | inserted _ hid => exact absurd hon.1 (by omega)
  | updated wh _ hcommits hoff =>
    exact hoff.resolve_left (hkeep hcommits ⟨wh, hget, hon.2 wh hget⟩)

/-- A list answers with the rows of the table. -/
theorem list_answer {webhooks : List Webhook}
    (h : exec e w (.db .listWebhooks) = some (.ok webhooks, w')) :
    webhooks = w.webhooks.rows ∧ w' = w := by
  obtain ⟨hx, rfl⟩ := exec_db h
  obtain ⟨hans, hw⟩ := Fault.apply_ok hx.symm
  exact ⟨(Except.ok.inj hans).symm, hw⟩

/-- What is listed as enabled is not disabled. -/
theorem notDisabled_of_lists {s : Stmt} {x : s.Ans} (h : exec e w s = some (x, w')) {id : Nat}
    (hlists : lists id ⟨s, x⟩ = true) : NotDisabled w' id := by
  cases s with
  | now | send r | await i => cases hlists
  | db s =>
    cases s with
    | listWebhooks =>
      cases x with
      | error err => cases hlists
      | ok webhooks =>
        obtain ⟨rfl, rfl⟩ := list_answer h
        obtain ⟨wh, hmem, hwh⟩ := List.any_eq_true.mp hlists
        obtain ⟨hid, hoff⟩ := Bool.and_eq_true_iff.mp hwh
        obtain rfl := beq_iff_eq.mp hid
        refine ⟨w'.webhooks.bounded wh hmem, fun wh' hget => ?_⟩
        obtain rfl : wh = wh' := Option.some.inj ((Table.get?_of_mem hmem).symm.trans hget)
        exact Bool.not_eq_true' _ ▸ hoff
    | _ => cases hlists

/-- A delivery is queued for a webhook that is there, and changes no webhook. -/
theorem queued_webhook {n : Delivery} {x : Except Go.Error Nat}
    (h : exec e w (.db (.insertDelivery n)) = some (x, w')) :
    w'.webhooks = w.webhooks ∧ (w' = w ∨ ∃ wh, w.webhooks.get? n.webhookID = some wh) := by
  refine exec_db_induction (P := fun w' => w'.webhooks = w.webhooks ∧
    (w' = w ∨ ∃ wh, w.webhooks.get? n.webhookID = some wh)) h ⟨rfl, .inl rfl⟩ fun _ => ?_
  simp only [World.exec]
  split
  · exact ⟨rfl, .inl rfl⟩
  · next hn =>
    rw [Option.isNone_iff_eq_none, ← ne_eq, Option.ne_none_iff_exists'] at hn
    exact ⟨rfl, .inr hn⟩

end Step

/-! ## Runs -/

section Runs

variable [Library] {d : Dispatcher} {w : World} {ts : List Task} {moves : Pool.Schedule Env}
  {i : Nat}

/-- Before the first move nothing was listed and nothing claimed. -/
theorem calm_zero (hq : Quiet w) : Calm d w ts moves 0 where
  quiet := hq
  listed := by
    rintro t id ⟨_, hlisted⟩
    cases hlisted
  attempted := by
    rintro t id ⟨_, k, del, r, hdel, _⟩
    cases hdel

/-- A thread queues a delivery for a webhook that it has listed as an enabled one. -/
theorem listed_of_queues {t : Nat} {n : Delivery}
    (h : (workingUpto d w ts moves i).next? t = some (.db (.insertDelivery n))) :
    Listed d w ts moves i t n.webhookID := by
  obtain ⟨_, _, hwarrant⟩ := Pool.next_allowed (working_of_serve (m := fun _ => QueueWarrant)
    (r := fun _ _ => True) serve_queues w ts moves i) h
  exact ⟨h ▸ Option.some_ne_none _, hwarrant n rfl⟩

/-- A thread records an attempt that is in progress. -/
theorem attempted_of_records {t id : Nat} {o : Outcome} {r : Delivery}
    (h : (workingUpto d w ts moves i).next? t = some (.db (.recordResult id o)))
    (hr : (workingUpto d w ts moves i).world.deliveries.get? id = some r) :
    Attempted d w ts moves i t r.webhookID := by
  obtain ⟨task, _, hwarrant⟩ := working_may h
  obtain ⟨_, del, ⟨hlooked, k, hbegun, hdel⟩, rfl⟩ := acts_of_about hwarrant rfl
  exact ⟨h ▸ Option.some_ne_none _, k, del, r, hdel, .inr ⟨hbegun, hlooked⟩, hr, rfl⟩

section Move

variable {t : Nat} {e : Env} {s : Stmt} {x : s.Ans}

/-- What keeps an enabled webhook as it is at a move of a settled run. -/
theorem undisabled_of_settled (h : Settled d w ts moves)
    (hasked : Pool.AskedAt exec (working d w ts) moves i t e s x) {id : Nat}
    (hon : Enabled (workingUpto d w ts moves i).world id)
    (huse : ¬ SettledAt d w ts moves i id) (hcommits : e.fault.commits = true) :
    disables? s ≠ some id :=
  fun hs => huse (h i t e s id hasked.move hasked.next hs hcommits hon)

/-- **A move of a settled run keeps the queue quiet.** -/
theorem quiet_move (h : Settled d w ts moves) (hc : Calm d w ts moves i)
    (hasked : Pool.AskedAt exec (working d w ts) moves i t e s x) :
    Quiet (workingUpto d w ts moves (i + 1)).world := by
  intro r' hr' hlive
  have hget' : (workingUpto d w ts moves (i + 1)).world.deliveries.get? r'.id = some r' :=
    Table.get?_of_mem hr'
  generalize r'.id = k at hget'
  have hexec : exec e (workingUpto d w ts moves i).world s =
    some (x, (workingUpto d w ts moves (i + 1)).world) := hasked.exec
  -- an unfinished delivery keeps its webhook from being disabled
  have hold {r : Delivery} (hr : (workingUpto d w ts moves i).world.deliveries.get? k = some r)
      (hrlive : r.status.terminal = false) (hsame : r.webhookID = r'.webhookID) :
      Enabled (workingUpto d w ts moves (i + 1)).world r'.webhookID := by
    have hmem := Table.mem_of_get? hr
    have hon := hc.quiet r hmem hrlive
    rw [hsame] at hon
    refine (enabled_step hexec hon ?_).resolve_right fun hgone => hgone r' hr' rfl
    refine undisabled_of_settled h hasked hon fun hsettled => ?_
    rw [hsettled.finished r hmem hsame] at hrlive
    cases hrlive
  have hstep := delivery_step hexec k
  rw [hget'] at hstep
  generalize hget : (workingUpto d w ts moves i).world.deliveries.get? k = r at hstep
  cases hstep with
  | same => exact hold hget hlive rfl
  | inserted n hid =>
    obtain ⟨hwebhooks, hsame | ⟨wh, hwh⟩⟩ := queued_webhook hexec
    · rw [hsame] at hget'
      cases hget.symm.trans hget'
    · have hon := (hc.listed t n.webhookID (listed_of_queues hasked.next)).2 wh hwh
      refine ⟨wh, ?_, hon⟩
      rw [hwebhooks]
      exact hwh
  | claimed r _ _ _ hclaim => exact hold hget (live_of_claimable hclaim) rfl
  | recorded r o _ =>
    have hsame : (o.record r).webhookID = r.webhookID := by
      cases o <;> rfl
    have hon := hc.attempted t r.webhookID (attempted_of_records hasked.next hget)
    rw [hsame]
    refine (enabled_step hexec hon fun _ hs => by cases hs).resolve_right fun hgone => ?_
    exact hgone _ hr' hsame

/-- **A move of a settled run** disables no webhook that a thread has listed. -/
theorem listed_move (h : Settled d w ts moves) (hc : Calm d w ts moves i)
    (hasked : Pool.AskedAt exec (working d w ts) moves i t e s x) {u id : Nat}
    (hu : Listed d w ts moves (i + 1) u id) :
    NotDisabled (workingUpto d w ts moves (i + 1)).world id := by
  obtain ⟨hnext, hlisted⟩ := hu
  have hkeep (hu : Listed d w ts moves i u id) :
      NotDisabled (workingUpto d w ts moves (i + 1)).world id := by
    refine notDisabled_step hasked.exec (hc.listed u id hu) fun hcommits hon => ?_
    exact undisabled_of_settled h hasked hon (fun hsettled => hsettled.unlisted u hu) hcommits
  by_cases htu : t = u
  · subst htu
    have hown : own t (workingUpto d w ts moves (i + 1)).history = _ := hasked.own
    rw [hown, listed_snoc, Bool.or_eq_true] at hlisted
    rcases hlisted with hlisted | hlists
    · have hnow : (workingUpto d w ts moves i).next? t = some s := hasked.next
      exact hkeep ⟨hnow ▸ Option.some_ne_none _, hlisted⟩
    · exact notDisabled_of_lists hasked.exec hlists
  · have hown : own u (workingUpto d w ts moves (i + 1)).history = _ := hasked.own_of_ne htu
    have hsame : (workingUpto d w ts moves (i + 1)).next? u = _ := hasked.next?_of_ne htu
    rw [hown] at hlisted
    rw [hsame] at hnext
    exact hkeep ⟨hnext, hlisted⟩

/-- **A move of a settled run** disables no webhook that a poll has a delivery of before it. -/
theorem attempted_move (h : Settled d w ts moves) (hc : Calm d w ts moves i)
    (hasked : Pool.AskedAt exec (working d w ts) moves i t e s x) {u id : Nat}
    (hu : Attempted d w ts moves (i + 1) u id) :
    Enabled (workingUpto d w ts moves (i + 1)).world id := by
  have hexec : exec e (workingUpto d w ts moves i).world s =
    some (x, (workingUpto d w ts moves (i + 1)).world) := hasked.exec
  obtain ⟨hnext, k, del, r', hdel, hopen, hget', rfl⟩ := hu
  have hr' := Table.mem_of_get? hget'
  -- the row was there before, or it is a new one
  have hrow : (∃ r, (workingUpto d w ts moves i).world.deliveries.get? del.id = some r ∧
      r.webhookID = r'.webhookID) ∨ r'.status.terminal = false := by
    have hstep := delivery_step hexec del.id
    rw [hget'] at hstep
    generalize hget : (workingUpto d w ts moves i).world.deliveries.get? del.id = r at hstep
    cases hstep with
    | same => exact .inl ⟨r', rfl, rfl⟩
    | inserted n _ =>
      obtain ⟨task, _, hwarrant⟩ := working_may hasked.next
      right
      cases task with
      | tick => exact hwarrant.elim
      | emit | createWebhook | updateWebhook | setWebhookDisabled | deleteWebhook =>
        have hpending : n.status = .pending := hwarrant.1
        change n.status.terminal = false
        rw [hpending]
        rfl
    | claimed r _ _ _ _ => exact .inl ⟨r, rfl, rfl⟩
    | recorded r o _ => exact .inl ⟨r, rfl, by cases o <;> rfl⟩
  rcases hrow with ⟨r, hget, hsame⟩ | hlive
  · have hkeep (hu : Attempted d w ts moves i u r'.webhookID) :
        Enabled (workingUpto d w ts moves (i + 1)).world r'.webhookID := by
      have hon := hc.attempted u _ hu
      refine (enabled_step hexec hon ?_).resolve_right fun hgone => hgone r' hr' rfl
      exact undisabled_of_settled h hasked hon fun hsettled => hsettled.unattempted u hu
    by_cases htu : t = u
    · subst htu
      have hnow : (workingUpto d w ts moves i).next? t = some s := hasked.next
      have hcursor : cursorAt d w ts moves (i + 1) t = (cursorAt d w ts moves i t).next s x := by
        unfold cursorAt
        rw [show own t (workingUpto d w ts moves (i + 1)).history = _ from hasked.own, cursor_snoc]
        rfl
      rw [hcursor] at hdel hopen
      by_cases hclaim : ∃ now b limit, s = .db (.claimDeliveries now b limit)
      · obtain ⟨now, b, limit, rfl⟩ := hclaim
        cases x with
        | error err =>
          exact hkeep ⟨hnow ▸ Option.some_ne_none _, k, del, r, hdel, hopen, hget,
            hsame⟩
        | ok batch =>
          -- what is claimed just now is unfinished
          have hmem : del ∈ batch := List.mem_of_getElem? hdel
          obtain ⟨r₀, hget₀, hclaimable, _⟩ := (claim_answer hexec).2 del hmem
          obtain rfl := Option.some.inj (hget₀.symm.trans hget)
          have hon := hc.quiet _ (Table.mem_of_get? hget) (live_of_claimable hclaimable)
          rw [hsame] at hon
          exact (enabled_step hexec hon fun _ hs => by cases hs).resolve_right fun hgone =>
            hgone r' hr' rfl
      · have hother (now b : Instant) (limit : Nat) : s ≠ .db (.claimDeliveries now b limit) :=
          fun hs => hclaim ⟨now, b, limit, hs⟩
        rw [(Cursor.next_of_ne hother _ x).1] at hdel
        exact hkeep ⟨hnow ▸ Option.some_ne_none _, k, del, r, hdel,
          Cursor.open_of_next hother hopen, hget, hsame⟩
    · have hown : own u (workingUpto d w ts moves (i + 1)).history = _ := hasked.own_of_ne htu
      have hsameNext : (workingUpto d w ts moves (i + 1)).next? u = _ := hasked.next?_of_ne htu
      rw [cursorAt, hown] at hdel hopen
      rw [hsameNext] at hnext
      exact hkeep ⟨hnext, k, del, r, hdel, hopen, hget, hsame⟩
  · exact quiet_move h hc hasked r' hr' hlive

end Move

/-- **A settled run is calm**: every unfinished delivery has an enabled webhook at every move. -/
theorem calm_upto (hq : Quiet w) (h : Settled d w ts moves) (hi : i ≤ moves.length) :
    Calm d w ts moves i := by
  induction i with
  | zero => exact calm_zero hq
  | succ i ih =>
    have hc := ih (by omega)
    rcases working_asked d w ts hi with hsame | ⟨s, x, hasked, _⟩
    · obtain ⟨hquiet, hlisted, hattempted⟩ := hc
      unfold Listed at hlisted
      unfold Attempted cursorAt at hattempted
      rw [← hsame] at hquiet hlisted hattempted
      exact ⟨hquiet, hlisted, hattempted⟩
    · exact ⟨quiet_move h hc hasked, fun u id => listed_move h hc hasked,
        fun u id => attempted_move h hc hasked⟩

/-- **A disabled webhook is silent** in every run from a quiet queue that disables a webhook only
once it is settled. -/
theorem silent_of_settled (hq : Quiet w) (h : Settled d w ts moves) : Silent d w ts moves := by
  rintro j k t del r ⟨e, now, staleBefore, limit, batch, hasked, hmem⟩ hjk hk _ _
  obtain ⟨row, hget, hclaimable, rfl, _⟩ := (claim_answer hasked.exec).2 del hmem
  exact (calm_upto hq h (hjk.le.trans hk)).quiet row (Table.mem_of_get? hget)
    (live_of_claimable hclaimable)

end Runs

/-! ## Disabled once settled -/

section Check

variable [Library] {d : Dispatcher} {w : World} {ts : List Task} {moves : Pool.Schedule Env}

/-- What a settled run asks of a move that disables a webhook, as a check: its deliveries are
finished, and every thread has ended, or has neither listed it nor claimed anything. -/
def settledCheck (σ : Pool sig (Except Go.Error Unit) World) (threads id : Nat) : Bool :=
  (σ.world.deliveries.rows.all fun r => r.webhookID != id || r.status.terminal) &&
    (List.range threads).all fun t => (σ.next? t).isNone ||
      (!listed id (own t σ.history) && (cursor (own t σ.history)).batch.isEmpty)

/-- A run whose moves pass the check is settled. -/
theorem settled_of_check
    (h : ∀ i (hi : i < moves.length), ∀ s ∈ (workingUpto d w ts moves i).next? moves[i].1,
      ∀ id ∈ disables? s, settledCheck (workingUpto d w ts moves i) ts.length id = true) :
    Settled d w ts moves := by
  intro i t e s id hmove hnext hdisables _ _
  obtain ⟨hi, heq⟩ := List.getElem?_eq_some_iff.mp hmove
  have hcheck := h i hi s (by rw [heq]; exact hnext) id hdisables
  obtain ⟨hrows, hthreads⟩ := Bool.and_eq_true_iff.mp hcheck
  have hthread (u : Nat) (hu : (workingUpto d w ts moves i).next? u ≠ none) :
      listed id (own u (workingUpto d w ts moves i).history) = false ∧
        (cursorAt d w ts moves i u).batch = [] := by
    have hlt : u < ts.length := by
      obtain ⟨s', hs'⟩ := Option.ne_none_iff_exists'.mp hu
      obtain ⟨task, htask, _⟩ := working_may hs'
      exact (List.getElem?_eq_some_iff.mp htask).1
    have hone := List.all_eq_true.mp hthreads u (List.mem_range.mpr hlt)
    rcases Bool.or_eq_true_iff.mp hone with hnone | hidle
    · exact absurd (Option.isNone_iff_eq_none.mp hnone) hu
    · obtain ⟨hlisted, hbatch⟩ := Bool.and_eq_true_iff.mp hidle
      exact ⟨Bool.not_eq_true' _ ▸ hlisted, List.isEmpty_iff.mp hbatch⟩
  refine ⟨?_, ?_, ?_⟩
  · intro r hr hid
    have hrow := List.all_eq_true.mp hrows r hr
    rw [hid, bne_self_eq_false, Bool.false_or] at hrow
    exact hrow
  · rintro u ⟨hu, hlisted⟩
    rw [(hthread u hu).1] at hlisted
    cases hlisted
  · rintro u ⟨hu, k, del, r, hdel, _⟩
    rw [(hthread u hu).2] at hdel
    cases hdel

end Check

/-! ## Disabled in between -/

attribute [local instance] sealedLibrary

/-- Two webhooks, which are told about everything. -/
def twoWebhooks : Table Webhook :=
  (oneWebhook "").insert
    (fun id => { id, name := "audit", url := "https://audit", events := "*" }) fun _ => rfl

/-- An event and a poll, the switch of the first webhook, and an event and a poll again. -/
def pausedAfter : List Task :=
  [.emit (fun ev => ev.action) "admin" "cert.issue" "" "" "", .tick, .setWebhookDisabled 1 true,
    .emit (fun ev => ev.action) "admin" "cert.revoke" "" "" "", .tick]

/-- Both webhooks are sent the first event. Then the first one is disabled, and the second event is
queued for the other one alone, and sent. -/
def pausedOnceSent : Pool.Schedule Env :=
  movesOf 0 11 { now := 0 } ++ movesOf 1 10 { now := second } ++
    movesOf 2 1 { now := 2 * second } ++ movesOf 3 6 { now := 3 * second } ++
    movesOf 4 6 { now := 4 * second }

/-- A webhook that is disabled once its deliveries are finished is silent from then on. -/
theorem pausedOnceSent_silent :
    Silent (.new {}) (.fresh twoWebhooks) pausedAfter pausedOnceSent :=
  silent_of_settled (quiet_fresh _) (settled_of_check (by decide +kernel))

/-- An event is queued, its webhook is disabled, and a poll claims the delivery and looks the
webhook up. -/
def disabledBetween : Pool.Schedule Env :=
  movesOf 0 6 { now := 0 } ++ movesOf 1 1 { now := second } ++ movesOf 2 3 { now := 2 * second }

/-- An event, the switch of the webhook, and a poll. -/
def eventSwitchPoll : List Task :=
  [.emit (fun ev => ev.action) "admin" "cert.issue" "" "" "", .setWebhookDisabled 1 true, .tick]

/-- **A disabled webhook is sent** what was queued before. -/
theorem disabled_sent :
    ¬ Silent (.new {}) (.fresh (oneWebhook "")) eventSwitchPoll disabledBetween := by
  intro h
  have hclaim : (workingUpto (.new {}) (.fresh (oneWebhook "")) eventSwitchPoll disabledBetween
      8).next? 2 = some (.db (.claimDeliveries (2 * second) (-118 * second) 100)) := by
    decide +kernel
  obtain ⟨x, hasked, _⟩ := working_moves (by decide) hclaim
  have hthread : disabledBetween[8].1 = 2 := by decide
  rw [hthread] at hasked
  have hdisabled : ((workingUpto (.new {}) (.fresh (oneWebhook "")) eventSwitchPoll disabledBetween
      8).world.webhooks.get? 1).map Webhook.disabled = some true := by decide +kernel
  have hbefore : (cursorAt (.new {}) (.fresh (oneWebhook "")) eventSwitchPoll disabledBetween
      8 2).batch = [] := by decide +kernel
  have hafter : (cursorAt (.new {}) (.fresh (oneWebhook "")) eventSwitchPoll disabledBetween
      9 2).batch.map (fun del => (del.id, del.webhookID)) = [(1, 1)] := by decide +kernel
  have hown : cursorAt (.new {}) (.fresh (oneWebhook "")) eventSwitchPoll disabledBetween 9 2 =
      (cursorAt (.new {}) (.fresh (oneWebhook "")) eventSwitchPoll disabledBetween 8 2).next
        (.db (.claimDeliveries (2 * second) (-118 * second) 100)) x :=
    (congrArg cursor hasked.own).trans (cursor_snoc _ _ _)
  rw [hown] at hafter
  cases x with
  | error e =>
    have hafter : (cursorAt (.new {}) (.fresh (oneWebhook "")) eventSwitchPoll disabledBetween
      8 2).batch.map (fun del => (del.id, del.webhookID)) = [(1, 1)] := hafter
    rw [hbefore] at hafter
    cases hafter
  | ok batch =>
    have hafter : batch.map (fun del => (del.id, del.webhookID)) = [(1, 1)] := hafter
    obtain ⟨del, rest, rfl, hids, _⟩ := List.map_eq_cons_iff.mp hafter
    obtain ⟨hid, hweb⟩ := Prod.mk.inj hids
    have hsend : (workingUpto (.new {}) (.fresh (oneWebhook "")) eventSwitchPoll disabledBetween
        10).next? 2 = some (.send ⟨"https://ops", "cert.issue", "cert.issue", 1, none⟩) := by
      decide +kernel
    obtain ⟨wh, hget, hoff⟩ := h 8 10 2 del _
      ⟨_, _, _, _, _, hasked, List.mem_cons_self⟩ (by decide) (by decide) hsend hid.symm
    rw [hweb] at hget
    rw [hget, Option.map_some, hoff] at hdisabled
    cases hdisabled

end Goca.Webhooks
