import Mathlib.Data.List.Sort
import Goca.Store.World

/-!
# The webhook tables

The webhooks and their deliveries, and what each statement over them does. A delivery is claimed by
a timestamp: whoever finds it claimed for longer than its own limit takes it over. The environment
of a statement is its time, the order in which a claim returns its rows, what an endpoint answers,
and whether the connection fails, before or after the statement took effect.
-/

set_option autoImplicit false

namespace Goca.Webhooks

open Sql (Table)
open Goca.Store (Fault)

/-- A `time.Duration`: nanoseconds. -/
abbrev Duration := Int

/-- An instant, in nanoseconds. -/
abbrev Instant := Int

/-! ## Rows -/

/-- A webhook: an endpoint, and the actions it is told about. -/
structure Webhook where
  id : Nat := 0
  name : String
  url : String
  events : String := ""
  secretEnc : String := ""
  disabled : Bool := false
  deriving Repr, DecidableEq

/-- The status of a delivery; `dead` means that its attempts are exhausted. -/
inductive DeliveryStatus
  | pending
  | delivered
  | failed
  | dead
  deriving Repr, DecidableEq

/-- A delivery in one of these is finished. -/
def DeliveryStatus.terminal : DeliveryStatus → Bool
  | .delivered | .dead => true
  | _ => false

/-- `WebhookDelivery` records the outcome of delivering one event to one webhook. -/
structure Delivery where
  id : Nat := 0
  webhookID : Nat
  event : String
  payload : String
  status : DeliveryStatus := .pending
  attempts : Nat := 0
  lastStatus : Int := 0
  lastError : String := ""
  nextAttempt : Option Instant
  claimedAt : Option Instant := none
  deriving Repr, DecidableEq

instance : Sql.Keyed Webhook := ⟨Webhook.id⟩

instance : Sql.Keyed Delivery := ⟨Delivery.id⟩

/-- The webhook tables. -/
structure World where
  webhooks : Table Webhook
  deliveries : Table Delivery

/-- A database with these webhooks that nothing was delivered to. -/
def World.fresh (webhooks : Table Webhook) : World := ⟨webhooks, .empty⟩

/-! ## Statements -/

/-- What an attempt came to. -/
inductive Outcome
  | delivered (httpStatus : Int)
  | failed (httpStatus : Int) (err : String) (next : Option Instant)
  deriving Repr, DecidableEq

/-- The request that a delivery sends. -/
structure Request where
  url : String
  payload : String
  /-- The headers `X-Goca-Event`, `X-Goca-Delivery` and `X-Goca-Signature`. -/
  event : String
  delivery : Nat
  signature : Option String
  deriving Repr, DecidableEq

/-- A statement over the webhook tables. -/
inductive HookStmt
  | listWebhooks
  | selectWebhook (id : Nat)
  | insertWebhook (w : Webhook)
  | updateWebhook (w : Webhook)
  | setWebhookDisabled (id : Nat) (disabled : Bool)
  | deleteWebhook (id : Nat)
  | insertDelivery (d : Delivery)
  | selectDelivery (id : Nat)
  | claimDeliveries (now : Instant) (staleBefore : Instant) (limit : Nat)
  | recordResult (id : Nat) (outcome : Outcome)
  deriving Repr, DecidableEq

/-- What a statement answers when it does not fail. -/
abbrev HookStmt.Res : HookStmt → Type
  | listWebhooks => List Webhook
  | selectWebhook _ => Option Webhook
  | insertWebhook _ => Nat
  | updateWebhook _ => Nat
  | setWebhookDisabled _ _ => Nat
  | deleteWebhook _ => Nat
  | insertDelivery _ => Nat
  | selectDelivery _ => Option Delivery
  | claimDeliveries _ _ _ => List Delivery
  | recordResult _ _ => Nat

/-- What a dispatcher asks: a statement, the clock, or the network. A request is sent in one step
and answered in a later one, because that takes time. -/
inductive Stmt
  | db (s : HookStmt)
  | now
  | send (r : Request)
  | await (delivery : Nat)
  deriving Repr, DecidableEq

abbrev Stmt.Ans : Stmt → Type
  | db s => Except Go.Error s.Res
  | now => Instant
  | send _ => Unit
  | await _ => Except Go.Error Int

/-- The statements of a dispatcher. -/
abbrev sig : Interleave.Sig := ⟨Stmt, Stmt.Ans⟩

/-- A handler over the webhook tables. -/
abbrev Handler (ε α : Type) := Interleave.Act sig ε α

/-- The environment's choices for one statement. -/
structure Env where
  now : Instant
  /-- The order of the rows that a claim returns. -/
  rank : Nat → Nat := id
  /-- What an endpoint answers: its status, or how the attempt failed. -/
  response : Except Go.Error Int := .ok 200
  fault : Fault := .none

/-! ## Execution -/

/-- The conditions of a claim: the delivery is due, and nobody holds it, or for too long. -/
def Delivery.claimable (now staleBefore : Instant) (d : Delivery) : Bool :=
  (d.status == .pending || (d.status == .failed && d.nextAttempt.any (· ≤ now))) &&
    d.claimedAt.all (· ≤ staleBefore)

/-- The deliveries that a claim takes: the oldest that it may. -/
def World.due (w : World) (now staleBefore : Instant) (limit : Nat) : List Delivery :=
  (w.deliveries.rows.filter (Delivery.claimable now staleBefore)).take limit

/-- What an outcome leaves in the row of its delivery, whatever its status was. -/
def Outcome.record : Outcome → Delivery → Delivery
  | .delivered httpStatus, d =>
    { d with status := .delivered, lastStatus := httpStatus, lastError := "", claimedAt := none }
  | .failed httpStatus err next, d =>
    { d with
      status := if next.isSome then .failed else .dead
      attempts := d.attempts + 1
      lastStatus := httpStatus
      lastError := err
      nextAttempt := next
      claimedAt := none }

theorem Outcome.record_id (o : Outcome) (d : Delivery) : (o.record d).id = d.id := by
  cases o <;> rfl

/-- What a statement answers and leaves. -/
def World.exec (e : Env) (w : World) : (s : HookStmt) → Except Go.Error s.Res × World
  | .listWebhooks => (.ok w.webhooks.rows, w)
  | .selectWebhook id => (.ok (w.webhooks.get? id), w)
  | .insertWebhook n =>
    if w.webhooks.rows.any (·.name == n.name) then
      (.error (.driver "UNIQUE constraint failed: webhooks.name"), w)
    else (.ok (w.webhooks.seq + 1),
      { w with webhooks := w.webhooks.insert (fun id => { n with id }) fun _ => rfl })
  | .updateWebhook n =>
    (.ok (w.webhooks.count (·.id == n.id)), { w with
      webhooks := w.webhooks.update (·.id == n.id) (fun h => { h with
        url := n.url, events := n.events, secretEnc := n.secretEnc, disabled := n.disabled })
        fun _ => rfl })
  | .setWebhookDisabled id disabled =>
    (.ok (w.webhooks.count (·.id == id)), { w with
      webhooks := w.webhooks.update (·.id == id) (fun h => { h with disabled }) fun _ => rfl })
  | .deleteWebhook id =>
    (.ok (w.webhooks.count (·.id == id)), {
      webhooks := w.webhooks.delete (·.id == id)
      deliveries := w.deliveries.delete (·.webhookID == id) })
  | .insertDelivery n =>
    if (w.webhooks.get? n.webhookID).isNone then
      (.error (.driver "FOREIGN KEY constraint failed"), w)
    else (.ok (w.deliveries.seq + 1),
      { w with deliveries := w.deliveries.insert (fun id => { n with id }) fun _ => rfl })
  | .selectDelivery id => (.ok (w.deliveries.get? id), w)
  | .claimDeliveries now staleBefore limit =>
    let due := w.due now staleBefore limit
    (.ok ((due.map fun d => { d with claimedAt := some now }).insertionSort
        fun a b => e.rank a.id ≤ e.rank b.id),
      { w with
        deliveries := w.deliveries.update (fun d => due.any (·.id == d.id))
          (fun d => { d with claimedAt := some now }) fun _ => rfl })
  | .recordResult id outcome =>
    (.ok (w.deliveries.count (·.id == id)), { w with
      deliveries := w.deliveries.update (·.id == id) outcome.record outcome.record_id })

/-- **One statement.** -/
def exec : Interleave.Sem sig Env World := fun e w s =>
  match s with
  | .db s => some (e.fault.apply w (w.exec e s))
  | .now => some (e.now, w)
  | .send _ => some ((), w)
  | .await _ => some (e.response, w)

end Goca.Webhooks
