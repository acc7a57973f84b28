import Mathlib.Algebra.Group.Int.Defs
import Goca.Lib.Pool
import Goca.Webhooks.Store

/-!
# Package webhooks

An event becomes a delivery for every enabled webhook that asks for it. Dispatchers, any number of
them over one database, claim what is due and send it, one delivery after the other; a failure is
recorded and tried again, later each time, until the attempts are exhausted.
-/

set_option autoImplicit false

namespace Goca.Webhooks

open Interleave (Act Prog Pool)

/-- What the package takes over from others. -/
class Library where
  /-- `Box.Decrypt` of package secret. -/
  decrypt : String → Except Go.Error (List UInt8)
  /-- Whether `http.NewRequest` accepts a URL. -/
  checkURL : String → Except Go.Error Unit
  /-- HMAC-SHA256 under a key, in hexadecimal. -/
  hmacSHA256 : List UInt8 → String → String

/-! ## Statements of package store -/

section Store

variable {ε : Type}

/-- A statement over the tables. -/
def db (s : HookStmt) : Handler Go.Error s.Res := ExceptT.mk (.ask (.db s) .pure)

/-- `time.Now()`. -/
def now : Handler ε Instant := ExceptT.mk (.ask .now fun t => .pure (.ok t))

/-- The row of a query for one, or `ErrNotFound`. -/
def row {α : Type} : Except Go.Error (Option α) → Except Go.Error α
  | .ok (some a) => .ok a
  | .ok none => .error .notFound
  | .error e => .error e

/-- No affected row is `ErrNotFound`. -/
def affected : Except Go.Error Nat → Except Go.Error Unit
  | .ok 0 => .error .notFound
  | .ok _ => .ok ()
  | .error e => .error e

/-- `GetWebhook` fetches one webhook by id, including the encrypted signing key. -/
def getWebhook (id : Nat) : Handler Go.Error Webhook := (db (.selectWebhook id)).mapResult row

/-- `CreateWebhook` stores a new webhook. -/
def createWebhook (w : Webhook) : Handler Go.Error Webhook := do
  let id ← db (.insertWebhook { w with events := if w.events = "" then "*" else w.events })
  getWebhook id

/-- `UpdateWebhook` changes a webhook; an empty key keeps the stored one. -/
def updateWebhook (w : Webhook) : Handler Go.Error Webhook := do
  let secret ←
    (if w.secretEnc = "" then do
      let existing ← getWebhook w.id
      pure existing.secretEnc
    else pure w.secretEnc)
  (db (.updateWebhook { w with
    events := if w.events = "" then "*" else w.events
    secretEnc := secret })).mapResult affected
  getWebhook w.id

/-- `SetWebhookDisabled` enables or disables a webhook. -/
def setWebhookDisabled (id : Nat) (disabled : Bool) : Handler Go.Error Unit :=
  (db (.setWebhookDisabled id disabled)).mapResult affected

/-- `DeleteWebhook` removes a webhook and, via the foreign key, its deliveries. -/
def deleteWebhook (id : Nat) : Handler Go.Error Unit :=
  (db (.deleteWebhook id)).mapResult affected

/-- `CreateWebhookDelivery` records a new, not-yet-attempted delivery. -/
def createWebhookDelivery (webhookID : Nat) (event payload : String) :
    Handler Go.Error Delivery := do
  let t ← now
  let id ← db (.insertDelivery {
    webhookID := webhookID
    event := event
    payload := payload
    nextAttempt := some t })
  (db (.selectDelivery id)).mapResult row

/-- `ClaimDueWebhookDeliveries` selects and claims the deliveries to attempt now. -/
def claimDueWebhookDeliveries (t : Instant) (staleAfter : Duration) (limit : Nat) :
    Handler Go.Error (List Delivery) :=
  db (.claimDeliveries t (t - staleAfter) (if limit = 0 then 100 else limit))

/-- `RecordWebhookDeliveryResult` records the outcome of one delivery attempt. -/
def recordWebhookDeliveryResult (id : Nat) (outcome : Outcome) : Handler Go.Error Unit :=
  (db (.recordResult id outcome)).mapResult fun r => r.map fun _ => ()

end Store

/-! ## Events -/

/-- `Event` is the JSON body delivered to a webhook endpoint. -/
structure Event where
  id : String
  ts : Instant
  actor : String
  action : String
  target : String
  detail : String
  ip : String

/-- `matches` reports whether an event filter matches an action: one of its tokens is the action, or
an ancestor of it. -/
def eventMatches (filter action : String) : Bool :=
  let filter := Go.trimSpace filter
  filter == "" || filter == "*" || (Go.split filter ',').any fun tok =>
    let tok := Go.trimSpace tok
    tok != "" && (tok == action || Go.hasPrefix action (tok ++ "."))

section Emit

variable {ε : Type} (marshal : Event → String)

/-- The loop of `Emit` over the webhooks. -/
def emitEach (actor action target detail ip : String) : List Webhook → Handler ε Unit
  | [] => pure ()
  | wh :: rest =>
    if wh.disabled = true ∨ eventMatches wh.events action = false then
      emitEach actor action target detail ip rest
    else do
      let t ← now
      let ts ← now
      let payload := marshal ⟨"evt-" ++ toString t, ts, actor, action, target, detail, ip⟩
      let _ ← (createWebhookDelivery wh.id action payload).attempt
      emitEach actor action target detail ip rest

/-- `Emit` enqueues a delivery for every enabled webhook whose filter matches the action. -/
def emit (actor action target detail ip : String) : Handler ε Unit := do
  let webhooks ← (db .listWebhooks).attempt
  match webhooks with
  | .error _ => pure ()
  | .ok webhooks => emitEach marshal actor action target detail ip webhooks

end Emit

/-! ## The dispatcher -/

/-- `time.Second`. -/
def second : Duration := 1000000000

/-- `Options` tunes the dispatcher. -/
structure Options where
  maxAttempts : Int := 0
  backoff : Duration := 0
  timeout : Duration := 0
  claimStale : Duration := 0

/-- `withDefaults` replaces what is not set. -/
def Options.withDefaults (o : Options) : Options where
  maxAttempts := if o.maxAttempts ≤ 0 then 5 else o.maxAttempts
  backoff := if o.backoff ≤ 0 then 30 * second else o.backoff
  timeout := if o.timeout ≤ 0 then 10 * second else o.timeout
  claimStale := if o.claimStale ≤ 0 then 120 * second else o.claimStale

/-- `Dispatcher` enqueues and delivers webhook events. -/
structure Dispatcher where
  maxAttempts : Int
  backoff : Duration
  /-- The timeout of its HTTP client. -/
  timeout : Duration
  claimStale : Duration

/-- `New` builds a dispatcher. -/
def Dispatcher.new (o : Options) : Dispatcher :=
  let o := o.withDefaults
  ⟨o.maxAttempts, o.backoff, o.timeout, o.claimStale⟩

/-- `backoff << n`, in 64 bits. -/
def shiftLeft (backoff : Duration) (n : Nat) : Duration := Int.bmod (backoff * 2 ^ n) (2 ^ 64)

/-- How long a delivery waits after an attempt failed, at most 15 minutes. -/
def Dispatcher.retryDelay (d : Dispatcher) (attempts : Nat) : Duration :=
  let delay := shiftLeft d.backoff (attempts - 1)
  if 900 * second < delay then 900 * second else delay

section Deliver

variable {ε : Type} [Library]

/-- Send a request; `await` is when its answer comes, or the client gives up. -/
def httpDo (r : Request) : Handler ε (Except Go.Error Int) := do
  ExceptT.mk (.ask (.send r) fun _ => .pure (.ok ()))
  ExceptT.mk (.ask (.await r.delivery) fun x => .pure (.ok x))

/-- `recordFailure` stores a failed attempt and decides whether to retry or dead-letter. -/
def Dispatcher.recordFailure (d : Dispatcher) (del : Delivery) (httpStatus : Int) (err : String) :
    Handler ε Unit := do
  let attempts := del.attempts + 1
  let next ←
    (if attempts < d.maxAttempts then do
      let t ← now
      pure (some (t + d.retryDelay attempts))
    else pure none)
  let _ ← (recordWebhookDeliveryResult del.id (.failed httpStatus err next)).attempt

/-- The signing key of a webhook; without one it is delivered unsigned. -/
def signingKey (wh : Webhook) : Except Go.Error (List UInt8) :=
  if wh.secretEnc = "" then .ok [] else Library.decrypt wh.secretEnc

/-- The request of a delivery. -/
def deliveryRequest (wh : Webhook) (key : List UInt8) (del : Delivery) : Request where
  url := wh.url
  payload := del.payload
  event := del.event
  delivery := del.id
  signature :=
    if key = [] then none else some ("sha256=" ++ Library.hmacSHA256 key del.payload)

/-- The last part of `deliver`: record what the endpoint answered. -/
def Dispatcher.recordResponse (d : Dispatcher) (del : Delivery) :
    Except Go.Error Int → Handler ε Unit
  | .error e => d.recordFailure del 0 e.text
  | .ok status =>
    if 200 ≤ status ∧ status < 300 then do
      let _ ← (recordWebhookDeliveryResult del.id (.delivered status)).attempt
    else d.recordFailure del status ("unexpected status " ++ toString status)

/-- `deliver` performs one attempt of a delivery and records the outcome. Where the webhook cannot
be read, or its key not decrypted, it returns without a record. -/
def Dispatcher.deliver (d : Dispatcher) (del : Delivery) : Handler ε Unit := do
  let wh ← (getWebhook del.webhookID).attempt
  match wh with
  | .error _ => pure ()
  | .ok wh =>
    match signingKey wh with
    | .error _ => pure ()
    | .ok key =>
      match Library.checkURL wh.url with
      | .error e => d.recordFailure del 0 e.text
      | .ok () => do
        let resp ← httpDo (deliveryRequest wh key del)
        d.recordResponse del resp

/-- The loop of `tick`: one delivery after the other. -/
def Dispatcher.deliverEach (d : Dispatcher) : List Delivery → Handler ε Unit
  | [] => pure ()
  | del :: rest => do
    d.deliver del
    d.deliverEach rest

/-- `tick` delivers every delivery that is due now. -/
def Dispatcher.tick (d : Dispatcher) : Handler ε Unit := do
  let t ← now
  let due ← (claimDueWebhookDeliveries t d.claimStale 100).attempt
  match due with
  | .error _ => pure ()
  | .ok due => d.deliverEach due

end Deliver

/-! ## What runs over the tables -/

/-- One poll of a dispatcher, an event, or an operation on a webhook. -/
inductive Task
  | tick
  | emit (marshal : Event → String) (actor action target detail ip : String)
  | createWebhook (w : Webhook)
  | updateWebhook (w : Webhook)
  | setWebhookDisabled (id : Nat) (disabled : Bool)
  | deleteWebhook (id : Nat)

/-- The program of a task, which answers with its error; a poll and an event have none. -/
def Task.serve [Library] (d : Dispatcher) : Task → Prog sig (Except Go.Error Unit)
  | .tick => ((d.tick : Handler Empty Unit).mapError Empty.elim).run
  | .emit marshal actor action target detail ip =>
    ((Webhooks.emit marshal actor action target detail ip : Handler Empty Unit).mapError
      Empty.elim).run
  | .createWebhook w => ((Webhooks.createWebhook w).mapResult fun r => r.map fun _ => ()).run
  | .updateWebhook w => ((Webhooks.updateWebhook w).mapResult fun r => r.map fun _ => ()).run
  | .setWebhookDisabled id disabled => (Webhooks.setWebhookDisabled id disabled).run
  | .deleteWebhook id => (Webhooks.deleteWebhook id).run

/-- Tasks in progress over a world, none of which has asked anything yet: the ticks are those of any
number of dispatchers, all configured alike. -/
def working [Library] (d : Dispatcher) (w : World) (ts : List Task) :
    Pool sig (Except Go.Error Unit) World := .init w (ts.map (Task.serve d))

/-- The tasks before move `i` of a schedule. -/
def workingUpto [Library] (d : Dispatcher) (w : World) (ts : List Task)
    (moves : Pool.Schedule Env) (i : Nat) : Pool sig (Except Go.Error Unit) World :=
  (working d w ts).upto exec moves i

end Goca.Webhooks
