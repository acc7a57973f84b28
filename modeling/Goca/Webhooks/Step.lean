import Goca.Store.Step
import Goca.Webhooks.Store

/-!
# What one statement does to one delivery

`DeliveryStep` lists the ways the row of a delivery can change, each with its statement. What the
laws use of a claim, a lookup and a record beyond that follows.
-/

set_option autoImplicit false

namespace Goca.Webhooks

open Sql (Table)
open Goca.Store (Fault)

variable {e : Env} {w w' : World}

/-- What a statement over the tables does to them. -/
theorem exec_db {s : HookStmt} {x : Except Go.Error s.Res} (h : exec e w (.db s) = some (x, w')) :
    x = (e.fault.apply w (w.exec e s)).1 ∧ w' = (e.fault.apply w (w.exec e s)).2 := by
  have heq := (Option.some.inj h).symm
  exact ⟨congrArg Prod.fst heq, congrArg Prod.snd heq⟩

/-- The rule of faults: what holds of the tables unchanged and of the tables after the statement
holds of what a statement leaves. -/
theorem exec_db_induction {P : World → Prop} {s : HookStmt} {x : Except Go.Error s.Res}
    (h : exec e w (.db s) = some (x, w')) (same : P w)
    (done : e.fault.commits = true → P (w.exec e s).2) : P w' := by
  obtain ⟨_, rfl⟩ := exec_db h
  obtain ⟨_, _, hw⟩ | ⟨hc, hw, _⟩ := e.fault.apply_cases w (w.exec e s)
  · rw [hw]
    exact same
  · rw [hw]
    exact done hc

/-! ## The row of a delivery -/

/-- The ways a statement changes the row of delivery `id`. -/
inductive DeliveryStep (e : Env) (seq id : Nat) : Stmt → Option Delivery → Option Delivery → Prop
  | same (s : Stmt) (r : Option Delivery) : DeliveryStep e seq id s r r
  | inserted (n : Delivery) (hid : seq < id) :
    DeliveryStep e seq id (.db (.insertDelivery n)) none (some { n with id })
  | claimed (r : Delivery) (now staleBefore : Instant) (limit : Nat)
    (h : r.claimable now staleBefore = true) :
    DeliveryStep e seq id (.db (.claimDeliveries now staleBefore limit)) (some r)
      (some { r with claimedAt := some now })
  | recorded (r : Delivery) (o : Outcome) (h : e.fault.commits = true) :
    DeliveryStep e seq id (.db (.recordResult id o)) (some r) (some (o.record r))
  | deleted (s : Stmt) (r : Delivery) : DeliveryStep e seq id s (some r) none

/-- A delivery that a claim takes is one it may take. -/
theorem claimable_of_due {now staleBefore : Instant} {limit : Nat} {r : Delivery}
    (h : r ∈ w.due now staleBefore limit) :
    r ∈ w.deliveries.rows ∧ r.claimable now staleBefore = true :=
  List.mem_filter.mp (List.mem_of_mem_take h)

/-- **What a statement does to the row of a delivery.** -/
theorem delivery_step {s : Stmt} {x : s.Ans} (h : exec e w s = some (x, w')) (id : Nat) :
    DeliveryStep e w.deliveries.seq id s (w.deliveries.get? id) (w'.deliveries.get? id) := by
  cases s with
  | now | send r | await i =>
    cases h
    exact .same _ _
  | db s =>
    refine exec_db_induction (P := fun w' => DeliveryStep e w.deliveries.seq id (.db s)
      (w.deliveries.get? id) (w'.deliveries.get? id)) h (.same _ _) fun hcommits => ?_
    cases s with
    | listWebhooks | selectWebhook i | updateWebhook n | setWebhookDisabled i b
    | selectDelivery i => exact .same _ _
    | insertWebhook n =>
      simp only [World.exec]
      split
      · exact .same _ _
      · exact .same _ _
    | deleteWebhook i =>
      show DeliveryStep e _ id _ (w.deliveries.get? id) ((w.deliveries.delete _).get? id)
      cases hr : (w.deliveries.delete (·.webhookID == i)).get? id with
      | none =>
        cases w.deliveries.get? id with
        | none => exact .same _ _
        | some r => exact .deleted _ r
      | some r =>
        rw [(Table.get?_delete.mp hr).1]
        exact .same _ _
    | insertDelivery n =>
      simp only [World.exec]
      split
      · exact .same _ _
      · show DeliveryStep e _ id _ _ ((w.deliveries.insert _ _).get? id)
        rw [Table.get?_insert]
        by_cases hid : id = w.deliveries.seq + 1
        · rw [if_pos hid, Table.get?_eq_none_of_lt (by omega)]
          exact .inserted n (by omega)
        · rw [if_neg hid]
          exact .same _ _
    | claimDeliveries t b limit =>
      simp only [World.exec]
      rw [Table.get?_update]
      cases hr : w.deliveries.get? id with
      | none => exact .same _ _
      | some r =>
        rw [Option.map_some]
        split
        next hdue =>
          obtain ⟨r', hr', hid⟩ := List.any_eq_true.mp hdue
          obtain ⟨hmem, hclaim⟩ := claimable_of_due hr'
          obtain rfl := Table.eq_of_key_eq hmem (Table.mem_of_get? hr) (beq_iff_eq.mp hid)
          exact .claimed r' t b limit hclaim
        next => exact .same _ _
    | recordResult i o =>
      refine Table.update_induction (P := DeliveryStep e _ id _) _ _ _ o.record_id id (.same _) ?_
      intro r hr hi
      obtain rfl : i = id := (beq_iff_eq.mp hi).symm.trans hr
      exact .recorded r o hcommits

/-- No key of a delivery is handed out twice. -/
theorem seq_step {s : Stmt} {x : s.Ans} (h : exec e w s = some (x, w')) :
    w.deliveries.seq ≤ w'.deliveries.seq := by
  cases s with
  | now | send r | await i =>
    cases h
    exact Nat.le_refl _
  | db s =>
    refine exec_db_induction (P := fun w' => w.deliveries.seq ≤ w'.deliveries.seq) h
      (Nat.le_refl _) fun _ => ?_
    cases s with
    | listWebhooks | selectWebhook i | updateWebhook n | setWebhookDisabled i b
    | selectDelivery i | deleteWebhook i | claimDeliveries t b limit | recordResult i o =>
      exact Nat.le_refl _
    | insertWebhook n =>
      simp only [World.exec]
      split <;> exact Nat.le_refl _
    | insertDelivery n =>
      simp only [World.exec]
      split
      · exact Nat.le_refl _
      · exact Nat.le_succ _

/-- A delivery that is gone stays gone. -/
theorem gone_step {s : Stmt} {x : s.Ans} (h : exec e w s = some (x, w')) {id : Nat}
    (hid : id ≤ w.deliveries.seq) (hgone : w.deliveries.get? id = none) :
    w'.deliveries.get? id = none := by
  have hstep := delivery_step h id
  rw [hgone] at hstep
  generalize w'.deliveries.get? id = r' at hstep
  cases hstep with
  | same => rfl
  | inserted n hlt => omega

/-- Every delivery is one of a webhook that is there: the foreign key. -/
def Owned (w : World) : Prop :=
  ∀ r ∈ w.deliveries.rows, (w.webhooks.get? r.webhookID).isSome = true

theorem owned_fresh (webhooks : Table Webhook) : Owned (.fresh webhooks) := by
  intro r hr
  cases hr

/-- A webhook that is updated is still there. -/
theorem isSome_get?_update {R : Type} [Sql.Keyed R] {t : Table R} {p : R → Bool} {f : R → R}
    (hf : ∀ r, Sql.Keyed.key (f r) = Sql.Keyed.key r) {i : Nat} (h : (t.get? i).isSome = true) :
    ((t.update p f hf).get? i).isSome = true := by
  rw [Table.get?_update, Option.isSome_map]
  exact h

/-- **The foreign key** of the deliveries is kept. -/
theorem owned_step {s : Stmt} {x : s.Ans} (h : exec e w s = some (x, w')) (hw : Owned w) :
    Owned w' := by
  cases s with
  | now | send r | await i =>
    cases h
    exact hw
  | db s =>
    refine exec_db_induction h hw fun _ => ?_
    cases s with
    | listWebhooks | selectWebhook i | selectDelivery i => exact hw
    | updateWebhook n | setWebhookDisabled i b =>
      intro r hr
      simp only [World.exec]
      exact isSome_get?_update _ (hw r hr)
    | insertWebhook n =>
      simp only [World.exec]
      split
      · exact hw
      · intro r hr
        obtain ⟨wh, hwh⟩ := Option.isSome_iff_exists.mp (hw r hr)
        rw [Table.get?_insert_of_some hwh]
        rfl
    | deleteWebhook i =>
      intro r hr
      obtain ⟨hr, hne⟩ := Table.mem_delete.mp hr
      obtain ⟨wh, hwh⟩ := Option.isSome_iff_exists.mp (hw r hr)
      have hkey : wh.id = r.webhookID := Table.key_of_get? hwh
      have hkept : (w.webhooks.delete (·.id == i)).get? r.webhookID = some wh :=
        Table.get?_delete.mpr ⟨hwh, by rw [hkey]; exact hne⟩
      exact Option.isSome_of_eq_some hkept
    | insertDelivery n =>
      simp only [World.exec]
      split
      · exact hw
      next hn =>
        intro r hr
        rcases Table.mem_insert.mp hr with hr | rfl
        · exact hw r hr
        · rwa [Option.isNone_iff_eq_none, ← ne_eq, Option.ne_none_iff_isSome] at hn
    | claimDeliveries t b limit =>
      intro r hr
      simp only [World.exec] at hr
      obtain ⟨r', hr', rfl⟩ := Table.mem_update.mp hr
      have hkeep := hw r' hr'
      split <;> exact hkeep
    | recordResult i o =>
      intro r hr
      simp only [World.exec] at hr
      obtain ⟨r', hr', rfl⟩ := Table.mem_update.mp hr
      have hkeep := hw r' hr'
      split
      · cases o <;> exact hkeep
      · exact hkeep

/-! ## Claims, lookups and records -/

/-- **A claim** hands out what it may take, each delivery once and as its row then stands. -/
theorem claim_answer {t b : Instant} {limit : Nat} {batch : List Delivery}
    (h : exec e w (.db (.claimDeliveries t b limit)) = some (.ok batch, w')) :
    (batch.map Delivery.id).Nodup ∧ ∀ del ∈ batch, ∃ r, w.deliveries.get? del.id = some r ∧
      r.claimable t b = true ∧ del = { r with claimedAt := some t } ∧
      w'.deliveries.get? del.id = some del := by
  obtain ⟨hx, rfl⟩ := exec_db h
  obtain ⟨hans, hw⟩ := Fault.apply_ok hx.symm
  obtain rfl := Except.ok.inj hans
  have hperm := List.perm_insertionSort (fun a b : Delivery => e.rank a.id ≤ e.rank b.id)
    ((w.due t b limit).map fun d => { d with claimedAt := some t })
  rw [hw]
  constructor
  · refine ((hperm.map Delivery.id).nodup_iff).mpr ?_
    rw [List.map_map]
    have hsub : (w.due t b limit).Sublist w.deliveries.rows :=
      (List.take_sublist _ _).trans List.filter_sublist
    exact (w.deliveries.distinct.sublist (hsub.map _) : _)
  · intro del hdel
    obtain ⟨r, hr, rfl⟩ := List.mem_map.mp (hperm.mem_iff.mp hdel)
    obtain ⟨hmem, hclaim⟩ := claimable_of_due hr
    have hget : w.deliveries.get? r.id = some r := Table.get?_of_mem hmem
    refine ⟨r, hget, hclaim, rfl, ?_⟩
    simp only [World.exec]
    rw [Table.get?_update, hget, Option.map_some, if_pos]
    exact List.any_eq_true.mpr ⟨r, hr, beq_self_eq_true _⟩

/-- A lookup that meets no fault answers what the table holds. -/
theorem lookup_answer {id : Nat} {x : Except Go.Error (Option Webhook)} (hf : e.fault = .none)
    (h : exec e w (.db (.selectWebhook id)) = some (x, w')) : x = .ok (w.webhooks.get? id) := by
  obtain ⟨rfl, _⟩ := exec_db h
  rw [hf]
  rfl

/-- A lookup changes nothing. -/
theorem lookup_same {id : Nat} {x : Except Go.Error (Option Webhook)}
    (h : exec e w (.db (.selectWebhook id)) = some (x, w')) : w' = w :=
  exec_db_induction (P := (· = w)) h rfl fun _ => rfl

/-- **A record** that takes effect leaves its outcome in the row, whatever the row was. -/
theorem record_row {id : Nat} {o : Outcome} {x : Except Go.Error Nat}
    (hcommits : e.fault.commits = true)
    (h : exec e w (.db (.recordResult id o)) = some (x, w')) :
    w'.deliveries.get? id = (w.deliveries.get? id).map o.record := by
  obtain ⟨_, rfl⟩ := exec_db h
  rw [Fault.apply_commits hcommits]
  exact Table.get?_update_self _ o.record_id fun r hr => beq_iff_eq.mpr hr

end Goca.Webhooks
