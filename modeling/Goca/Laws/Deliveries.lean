import Goca.Laws.Dispatch
import Goca.Webhooks.Step

/-!
# The life of a delivery

Nothing in the row of a delivery says who claimed it: a claim that outlives its limit is taken over,
and a record does not look at what the row holds by then. So a delivery goes through its states as
meant where only its last claimant acts for it, and an attempt is accounted for where it comes to
its record. `Orderly` says both of a run, `DeliverySound` what follows, and `Ledger` is the
invariant between them.
-/

set_option autoImplicit false

namespace Goca.Webhooks

open Sql (Table)
open Interleave (Pool Trace own own_snoc_self own_snoc_of_ne)

/-! ## What a history says of a delivery -/

/-- Whether an event is a claim that handed out the delivery. -/
def claims (id : Nat) : Interleave.Event sig → Bool
  | ⟨_, .db (.claimDeliveries _ _ _), .ok batch⟩ => batch.any (·.id == id)
  | _ => false

/-- Whether an event records a failed attempt at the delivery. -/
def fails (id : Nat) : Interleave.Event sig → Bool
  | ⟨_, .db (.recordResult i (.failed _ _ _)), _⟩ => i == id
  | _ => false

/-- The thread that claimed a delivery last. -/
def holder (id : Nat) (h : List (Interleave.Event sig)) : Option Nat :=
  h.foldl (fun t e => if claims id e then some e.thread else t) none

/-- How many failed attempts at a delivery were recorded. -/
def failures (id : Nat) (h : List (Interleave.Event sig)) : Nat := h.countP (fails id)

/-- Whether thread `t` recorded an attempt at a delivery. -/
def Recorded (t id : Nat) (h : List (Interleave.Event sig)) : Prop :=
  ∃ o x, (⟨t, .db (.recordResult id o), x⟩ : Interleave.Event sig) ∈ h

section History

variable {h : List (Interleave.Event sig)} {id : Nat}

theorem holder_snoc (e : Interleave.Event sig) :
    holder id (h ++ [e]) = if claims id e then some e.thread else holder id h := by
  rw [holder, List.foldl_append]
  rfl

theorem failures_snoc (e : Interleave.Event sig) :
    failures id (h ++ [e]) = failures id h + if fails id e then 1 else 0 := by
  rw [failures, List.countP_append, List.countP_singleton]
  rfl

theorem Recorded.snoc {t : Nat} (hr : Recorded t id h) (e : Interleave.Event sig) :
    Recorded t id (h ++ [e]) := by
  obtain ⟨o, x, hx⟩ := hr
  exact ⟨o, x, List.mem_append_left _ hx⟩

variable {t : Nat}

/-- The cursor of the thread that asks. -/
theorem cursor_asked (s : Stmt) (x : s.Ans) :
    cursor (own t (h ++ [⟨t, s, x⟩])) = (cursor (own t h)).next s x := by
  rw [own_snoc_self, cursor_snoc]

/-- The cursor of any other thread. -/
theorem cursor_other {u : Nat} (hne : t ≠ u) (s : Stmt) (x : s.Ans) :
    cursor (own u (h ++ [⟨t, s, x⟩])) = cursor (own u h) := by
  rw [own_snoc_of_ne hne]

end History

/-- The delivery that a statement acts for. -/
def about? : Stmt → Option Nat
  | .send r => some r.delivery
  | .await id => some id
  | .db (.recordResult id _) => some id
  | _ => none

/-- Only a tick acts for a delivery, and only for the one that it attempts. -/
theorem acts_of_about [Library] {d : Dispatcher} {task : Task} {q : Trace sig} {s : Stmt} {id : Nat}
    (hs : task.Warrant d q s) (habout : about? s = some id) :
    task = .tick ∧ ∃ del, (cursor q).Attempts del ∧ del.id = id := by
  cases task with
  | tick =>
    refine ⟨rfl, ?_⟩
    cases s with
    | now => cases habout
    | send r | await i =>
      cases habout
      exact hs
    | db s =>
      cases s with
      | recordResult i o =>
        cases habout
        obtain ⟨del, hdel, hid, _⟩ := hs
        exact ⟨del, hdel, hid⟩
      | _ => cases habout
  | emit | createWebhook | updateWebhook | setWebhookDisabled | deleteWebhook =>
    cases s with
    | now => cases habout
    | send r | await i => exact hs.elim
    | db s =>
      cases s with
      | recordResult i o => exact hs.elim
      | _ => cases habout

/-! ## Orderly runs, and what is sound about them -/

section Laws

variable [Library] (d : Dispatcher) (w : World) (ts : List Task) (moves : Pool.Schedule Env)

/-- The cursor of a thread before move `i`. -/
def cursorAt (i t : Nat) : Cursor := cursor (own t (workingUpto d w ts moves i).history)

/-- **An orderly run**: who acts for a delivery holds it; the webhook of an attempt is read without
a failure, and its key decrypts; and a record takes effect. -/
structure Orderly : Prop where
  held : ∀ i t e s id, moves[i]? = some (t, e) → (workingUpto d w ts moves i).next? t = some s →
    about? s = some id → holder id (workingUpto d w ts moves i).history = some t
  reachable : ∀ i t e id, moves[i]? = some (t, e) → ts[t]? = some .tick →
    (workingUpto d w ts moves i).next? t = some (.db (.selectWebhook id)) →
      e.fault = .none ∧ ∀ wh, (workingUpto d w ts moves i).world.webhooks.get? id = some wh →
        ∃ key, signingKey wh = .ok key
  commits : ∀ i t e id o, moves[i]? = some (t, e) →
    (workingUpto d w ts moves i).next? t = some (.db (.recordResult id o)) →
      e.fault.commits = true

/-- Before move `i` thread `t` has not yet ended its attempt at delivery `k` of its batch. -/
def Underway (i t k : Nat) : Prop :=
  ∃ s, (workingUpto d w ts moves i).next? t = some s ∧
    ((cursorAt d w ts moves i t).begun ≤ k ∨
      (cursorAt d w ts moves i t).begun = k + 1 ∧ ∀ id, s ≠ .db (.selectWebhook id))

/-- **The state machine of a delivery.** A delivered or dead one stays as it is and is not sent; the
attempts are the failures recorded, at most as many as configured, and it is dead when they are as
many; and an attempt that has ended is recorded, unless its delivery was deleted with its
webhook. -/
structure DeliverySound : Prop where
  terminal : ∀ i j, i ≤ j → j ≤ moves.length → ∀ id r r',
    (workingUpto d w ts moves i).world.deliveries.get? id = some r → r.status.terminal = true →
      (workingUpto d w ts moves j).world.deliveries.get? id = some r' → r' = r
  unsent : ∀ i t e r x, Pool.AskedAt exec (working d w ts) moves i t e (.send r) x → ∀ row,
    (workingUpto d w ts moves i).world.deliveries.get? r.delivery = some row →
      row.status.terminal = false
  attempts : ∀ i, i ≤ moves.length → ∀ id r,
    (workingUpto d w ts moves i).world.deliveries.get? id = some r →
      (r.attempts : Int) ≤ d.maxAttempts ∧
        r.attempts = failures id (workingUpto d w ts moves i).history ∧
        (r.status = .dead ↔ (r.attempts : Int) = d.maxAttempts)
  recorded : ∀ i, i ≤ moves.length → ∀ t k del,
    (cursorAt d w ts moves i t).batch[k]? = some del → Underway d w ts moves i t k ∨
      Recorded t del.id (workingUpto d w ts moves i).history ∨
      (workingUpto d w ts moves i).world.deliveries.get? del.id = none

end Laws

/-! ## The ledger -/

/-- Only a delivery that is not finished is claimed. -/
theorem live_of_claimable {now staleBefore : Instant} {r : Delivery}
    (h : r.claimable now staleBefore = true) : r.status.terminal = false := by
  unfold Delivery.claimable at h
  cases hs : r.status with
  | pending | failed => rfl
  | delivered | dead =>
    rw [hs] at h
    cases h

/-- The row of a delivery fits the failures recorded for it. -/
def Fits (most : Int) (n : Nat) (r : Delivery) : Prop :=
  (r.attempts : Int) ≤ most ∧ r.attempts = n ∧ (r.status = .dead ↔ (r.attempts : Int) = most)

/-- A row that is as it was fits as it did. -/
theorem Fits.of_eq {most : Int} {n : Nat} {r r' : Delivery} (h : Fits most n r)
    (hstatus : r'.status = r.status) (hattempts : r'.attempts = r.attempts) : Fits most n r' := by
  unfold Fits
  rw [hstatus, hattempts]
  exact h

/-- A fresh row fits no failures. -/
theorem fits_fresh {most : Int} {r : Delivery} (hpos : 0 < most) (hstatus : r.status = .pending)
    (hattempts : r.attempts = 0) : Fits most 0 r := by
  unfold Fits
  rw [hstatus, hattempts]
  refine ⟨by omega, rfl, ?_⟩
  constructor
  · intro hd
    cases hd
  · intro hm
    omega

/-- The outcome of an attempt fits, where the attempt was made of a copy that is up to date and of
a row that was not finished. -/
theorem Fits.record {d : Dispatcher} {n : Nat} {r del : Delivery} {o : Outcome}
    (h : Fits d.maxAttempts n r) (hlive : r.status.terminal = false)
    (hcopy : r.attempts = del.attempts) (ho : Retries d del o) :
    Fits d.maxAttempts (n + match o with | .delivered _ => 0 | .failed _ _ _ => 1) (o.record r) := by
  obtain ⟨hle, hn, hdead⟩ := h
  have hlt : (r.attempts : Int) < d.maxAttempts := by
    rcases Int.lt_or_eq_of_le hle with hlt | heq
    · exact hlt
    · rw [hdead.mpr heq] at hlive
      cases hlive
  cases o with
  | delivered httpStatus =>
    refine ⟨hle, hn, ?_⟩
    constructor
    · intro hd
      cases hd
    · intro hm
      have hm : (r.attempts : Int) = d.maxAttempts := hm
      omega
  | failed httpStatus err next =>
    have ho : next.isSome = true ↔ ((del.attempts + 1 : Nat) : Int) < d.maxAttempts := ho
    rw [← hcopy] at ho
    refine ⟨?_, ?_, ?_⟩
    · show ((r.attempts + 1 : Nat) : Int) ≤ d.maxAttempts
      omega
    · show r.attempts + 1 = n + 1
      rw [hn]
    · show (if next.isSome = true then DeliveryStatus.failed else .dead) = .dead ↔
        ((r.attempts + 1 : Nat) : Int) = d.maxAttempts
      by_cases hnext : next.isSome = true
      · rw [if_pos hnext]
        have := ho.mp hnext
        constructor
        · intro hd
          cases hd
        · intro hm
          omega
      · rw [if_neg hnext]
        have hno := mt ho.mpr hnext
        refine ⟨fun _ => ?_, fun _ => rfl⟩
        omega

/-- How a statement that is about no attempt leaves the rows: a row that was there keeps what
counts, and a new one is fresh. -/
def Undisturbed (w w' : World) : Prop :=
  ∀ id r', w'.deliveries.get? id = some r' →
    (∃ r, w.deliveries.get? id = some r ∧ r'.status = r.status ∧ r'.attempts = r.attempts ∧
      r'.webhookID = r.webhookID) ∨
    w.deliveries.seq < id ∧ r'.status = .pending ∧ r'.attempts = 0

/-- What is no record leaves the rows undisturbed, where a new delivery is a fresh one. -/
theorem undisturbed_step {e : Env} {w w' : World} {s : Stmt} {x : s.Ans}
    (hexec : exec e w s = some (x, w'))
    (hrecord : ∀ id o, s ≠ .db (.recordResult id o))
    (hinsert : ∀ n, s = .db (.insertDelivery n) → n.status = .pending ∧ n.attempts = 0) :
    Undisturbed w w' := by
  intro id r' hr'
  have hstep := delivery_step hexec id
  rw [hr'] at hstep
  generalize hr : w.deliveries.get? id = r at hstep
  cases hstep with
  | same => exact .inl ⟨r', rfl, rfl, rfl, rfl⟩
  | inserted n hid => exact .inr ⟨hid, hinsert n rfl⟩
  | claimed r _ _ _ _ => exact .inl ⟨r, rfl, rfl, rfl, rfl⟩
  | recorded _ o _ => exact absurd rfl (hrecord id o)

/-- **The ledger** of a history and the world it led to. -/
structure Ledger [Library] (ts : List Task) (most : Int) (h : List (Interleave.Event sig))
    (w : World) : Prop where
  fits : ∀ id r, w.deliveries.get? id = some r → Fits most (failures id h) r
  fresh : ∀ id, w.deliveries.seq < id → failures id h = 0
  owned : Owned w
  ticks : ∀ t, (cursor (own t h)).batch ≠ [] → ts[t]? = some .tick
  distinct : ∀ t, ((cursor (own t h)).batch.map Delivery.id).Nodup
  known : ∀ t del, del ∈ (cursor (own t h)).batch → del.id ≤ w.deliveries.seq ∧
    ∀ r, w.deliveries.get? del.id = some r → r.webhookID = del.webhookID
  /-- The copy that a holder has, until it records it, is up to date. -/
  copies : ∀ t k del, (cursor (own t h)).batch[k]? = some del → (cursor (own t h)).Open k →
    holder del.id h = some t → ∀ r, w.deliveries.get? del.id = some r →
      r.status.terminal = false ∧ r.attempts = del.attempts
  givenUp : ∀ t k del x, (cursor (own t h)).batch[k]? = some del →
    (cursor (own t h)).begun = k + 1 → (cursor (own t h)).looked = some x → GivesUp x →
      w.deliveries.get? del.id = none
  settled : ∀ t k del, (cursor (own t h)).batch[k]? = some del → k < (cursor (own t h)).begun →
    (cursor (own t h)).begun = k + 1 ∧ (cursor (own t h)).looked.isSome = true ∨
      Recorded t del.id h ∨ w.deliveries.get? del.id = none

section Ledger

variable [Library] {ts : List Task} {most : Int} {h : List (Interleave.Event sig)} {w w' : World}
  {e : Env} {t : Nat}

theorem ledger_nil (webhooks : Table Webhook) : Ledger ts most [] (.fresh webhooks) where
  fits := by
    intro id r hr
    cases hr
  fresh := fun _ _ => rfl
  owned := owned_fresh webhooks
  ticks := fun _ hne => absurd rfl hne
  distinct := fun _ => List.nodup_nil
  known := by
    intro t del hdel
    cases hdel
  copies := by
    intro t k del hdel
    cases hdel
  givenUp := by
    intro t k del x hdel
    cases hdel
  settled := by
    intro t k del hdel
    cases hdel

/-- **The frame rule**: an event that claims and records nothing, and moves no cursor with a batch,
keeps the ledger where it leaves the rows undisturbed. -/
theorem Ledger.frame (hl : Ledger ts most h w) (hpos : 0 < most) {ev : Interleave.Event sig}
    (hclaims : ∀ id, claims id ev = false) (hfails : ∀ id, fails id ev = false)
    (hcursor : ∀ t, cursor (own t (h ++ [ev])) = cursor (own t h) ∨
      (cursor (own t (h ++ [ev]))).batch = [])
    (hseq : w.deliveries.seq ≤ w'.deliveries.seq) (hrows : Undisturbed w w') (howned : Owned w') :
    Ledger ts most (h ++ [ev]) w' := by
  have hholder (id : Nat) : holder id (h ++ [ev]) = holder id h := by
    rw [holder_snoc, hclaims]
    rfl
  have hfailures (id : Nat) : failures id (h ++ [ev]) = failures id h := by
    rw [failures_snoc, hfails]
    rfl
  -- a thread that has a batch has not moved
  have hsame {t k : Nat} {del : Delivery} (hdel : (cursor (own t (h ++ [ev]))).batch[k]? = some del) :
      cursor (own t (h ++ [ev])) = cursor (own t h) := by
    rcases hcursor t with hc | hc
    · exact hc
    · rw [hc] at hdel
      cases hdel
  have hold {del : Delivery} {r : Delivery} (hid : del.id ≤ w.deliveries.seq)
      (hr : w'.deliveries.get? del.id = some r) : ∃ r₀, w.deliveries.get? del.id = some r₀ ∧
        r.status = r₀.status ∧ r.attempts = r₀.attempts ∧ r.webhookID = r₀.webhookID := by
    rcases hrows _ _ hr with hr | ⟨hlt, _⟩
    · exact hr
    · omega
  have hgone {id : Nat} (hid : id ≤ w.deliveries.seq) (hnone : w.deliveries.get? id = none) :
      w'.deliveries.get? id = none := by
    cases hr : w'.deliveries.get? id with
    | none => rfl
    | some r =>
      rcases hrows _ _ hr with ⟨r₀, hr₀, _⟩ | ⟨hlt, _⟩
      · rw [hnone] at hr₀
        cases hr₀
      · omega
  refine ⟨?_, ?_, howned, ?_, ?_, ?_, ?_, ?_, ?_⟩
  · intro id r hr
    rw [hfailures]
    rcases hrows id r hr with ⟨r₀, hr₀, hstatus, hattempts, _⟩ | ⟨hlt, hstatus, hattempts⟩
    · exact (hl.fits id r₀ hr₀).of_eq hstatus hattempts
    · rw [hl.fresh id hlt]
      exact fits_fresh hpos hstatus hattempts
  · intro id hid
    rw [hfailures]
    exact hl.fresh id (by omega)
  · intro t hne
    obtain ⟨del, hdel⟩ := List.exists_mem_of_ne_nil _ hne
    obtain ⟨k, hk⟩ := List.mem_iff_getElem?.mp hdel
    rw [hsame hk] at hne
    exact hl.ticks t hne
  · intro t
    rcases hcursor t with hc | hc
    · rw [hc]
      exact hl.distinct t
    · rw [hc]
      exact List.nodup_nil
  · intro t del hdel
    obtain ⟨k, hk⟩ := List.mem_iff_getElem?.mp hdel
    rw [hsame hk] at hdel
    obtain ⟨hid, hweb⟩ := hl.known t del hdel
    refine ⟨by omega, fun r hr => ?_⟩
    obtain ⟨r₀, hr₀, _, _, hwebhook⟩ := hold hid hr
    rw [hwebhook]
    exact hweb r₀ hr₀
  · intro t k del hdel hopen hheld r hr
    have hc := hsame hdel
    rw [hc] at hdel hopen
    rw [hholder] at hheld
    obtain ⟨r₀, hr₀, hstatus, hattempts, _⟩ :=
      hold (hl.known t del (List.mem_of_getElem? hdel)).1 hr
    rw [hstatus, hattempts]
    exact hl.copies t k del hdel hopen hheld r₀ hr₀
  · intro t k del x hdel hbegun hlooked hx
    have hc := hsame hdel
    rw [hc] at hdel hbegun hlooked
    exact hgone (hl.known t del (List.mem_of_getElem? hdel)).1
      (hl.givenUp t k del x hdel hbegun hlooked hx)
  · intro t k del hdel hk
    have hc := hsame hdel
    rw [hc] at hdel hk ⊢
    rcases hl.settled t k del hdel hk with hcur | hrec | hnone
    · exact .inl hcur
    · exact .inr (.inl (hrec.snoc ev))
    · exact .inr (.inr (hgone (hl.known t del (List.mem_of_getElem? hdel)).1 hnone))

/-- **A lookup** of a tick that meets no failure keeps the ledger: an attempt that it ends without
a record is one at a delivery that is gone. -/
theorem Ledger.lookup {d : Dispatcher} {id : Nat} {x : Except Go.Error (Option Webhook)}
    (hl : Ledger ts most h w) (hs : TickWarrant d (own t h) (.db (.selectWebhook id)))
    (hx : x = .ok (w.webhooks.get? id))
    (hkey : ∀ wh, w.webhooks.get? id = some wh → ∃ key, signingKey wh = .ok key) :
    Ledger ts most (h ++ [⟨t, .db (.selectWebhook id), x⟩]) w := by
  obtain ⟨hbetween, del₀, hdel₀, hid⟩ := hs
  have hholder (i : Nat) : holder i (h ++ [⟨t, .db (.selectWebhook id), x⟩]) = holder i h := by
    rw [holder_snoc]
    rfl
  have hself : cursor (own t (h ++ [⟨t, .db (.selectWebhook id), x⟩])) =
      { cursor (own t h) with begun := (cursor (own t h)).begun + 1, looked := some x } :=
    cursor_asked (.db (.selectWebhook id)) x
  have hbatch (u : Nat) : (cursor (own u (h ++ [⟨t, .db (.selectWebhook id), x⟩]))).batch =
      (cursor (own u h)).batch := by
    by_cases hu : t = u
    · subst hu
      rw [hself]
    · rw [cursor_other hu]
  refine ⟨?_, ?_, hl.owned, ?_, ?_, ?_, ?_, ?_, ?_⟩
  · intro i r hr
    rw [failures_snoc]
    exact hl.fits i r hr
  · intro i hi
    rw [failures_snoc]
    exact hl.fresh i hi
  · intro u hne
    rw [hbatch] at hne
    exact hl.ticks u hne
  · intro u
    rw [hbatch]
    exact hl.distinct u
  · intro u del hdel
    rw [hbatch] at hdel
    exact hl.known u del hdel
  · intro u k del hdel hopen hheld
    rw [hbatch] at hdel
    rw [hholder] at hheld
    refine hl.copies u k del hdel ?_ hheld
    by_cases hu : t = u
    · subst hu
      rw [hself] at hopen
      left
      rcases hopen with hle | ⟨heq, _⟩
      · have hle : (cursor (own t h)).begun + 1 ≤ k := hle
        omega
      · have heq : (cursor (own t h)).begun + 1 = k + 1 := heq
        omega
    · rw [cursor_other hu] at hopen
      exact hopen
  · intro u k del y hdel hbegun hlooked hy
    rw [hbatch] at hdel
    by_cases hu : t = u
    · subst hu
      rw [hself] at hbegun hlooked
      obtain rfl : (cursor (own t h)).begun = k := Nat.succ.inj hbegun
      obtain rfl := Option.some.inj hlooked
      obtain rfl := Option.some.inj (hdel₀.symm.trans hdel)
      cases hr : w.deliveries.get? del₀.id with
      | none => rfl
      | some r =>
        -- the webhook of a delivery that is there is there, and its key decrypts
        have hweb := (hl.known t del₀ (List.mem_of_getElem? hdel)).2 r hr
        have hthere := hl.owned r (Table.mem_of_get? hr)
        rw [hweb, hid] at hthere
        obtain ⟨wh, hwh⟩ := Option.isSome_iff_exists.mp hthere
        obtain ⟨key, hkey⟩ := hkey wh hwh
        rw [hwh] at hx
        exact absurd hkey (hy wh key hx)
    · rw [cursor_other hu] at hbegun hlooked
      exact hl.givenUp u k del y hdel hbegun hlooked hy
  · intro u k del hdel hk
    rw [hbatch] at hdel
    by_cases hu : t = u
    · subst hu
      rw [hself] at hk ⊢
      have hk : k < (cursor (own t h)).begun + 1 := hk
      by_cases hlast : k = (cursor (own t h)).begun
      · exact .inl ⟨congrArg (· + 1) hlast.symm, rfl⟩
      · right
        rcases hl.settled t k del hdel (by omega) with ⟨hcur, hsome⟩ | hrec | hnone
        · obtain ⟨y, hy⟩ := Option.isSome_iff_exists.mp hsome
          exact .inr (hl.givenUp t k del y hdel hcur hy (hbetween y hy))
        · exact .inl (hrec.snoc _)
        · exact .inr hnone
    · rw [cursor_other hu] at hk ⊢
      rcases hl.settled u k del hdel hk with hcur | hrec | hnone
      · exact .inl hcur
      · exact .inr (.inl (hrec.snoc _))
      · exact .inr (.inr hnone)

/-- **A claim** keeps the ledger: the copies that it hands out are of rows that are not finished. -/
theorem Ledger.claim {now staleBefore : Instant} {limit : Nat} {batch : List Delivery}
    (hl : Ledger ts most h w) (htick : ts[t]? = some .tick)
    (hexec : exec e w (.db (.claimDeliveries now staleBefore limit)) = some (.ok batch, w')) :
    Ledger ts most (h ++ [⟨t, .db (.claimDeliveries now staleBefore limit), .ok batch⟩]) w' := by
  obtain ⟨hdistinct, hbatch⟩ := claim_answer hexec
  have hself : cursor (own t (h ++ [⟨t, .db (.claimDeliveries now staleBefore limit),
      .ok batch⟩])) = ⟨now, batch, 0, none⟩ :=
    cursor_asked (.db (.claimDeliveries now staleBefore limit)) (.ok batch)
  -- what a claim leaves of a row, and that it makes none
  have hrow {id : Nat} {r' : Delivery} (hr' : w'.deliveries.get? id = some r') :
      ∃ r, w.deliveries.get? id = some r ∧ r'.status = r.status ∧ r'.attempts = r.attempts ∧
        r'.webhookID = r.webhookID := by
    have hstep := delivery_step hexec id
    rw [hr'] at hstep
    generalize hr : w.deliveries.get? id = r at hstep
    cases hstep with
    | same => exact ⟨r', rfl, rfl, rfl, rfl⟩
    | claimed r _ _ _ _ => exact ⟨r, rfl, rfl, rfl, rfl⟩
  have hseq := seq_step hexec
  have hfailures (id : Nat) : failures id (h ++ [⟨t,
      .db (.claimDeliveries now staleBefore limit), .ok batch⟩]) = failures id h := by
    rw [failures_snoc]
    rfl
  refine ⟨?_, ?_, owned_step hexec hl.owned, ?_, ?_, ?_, ?_, ?_, ?_⟩
  · intro id r' hr'
    obtain ⟨r, hr, hstatus, hattempts, _⟩ := hrow hr'
    rw [hfailures]
    exact (hl.fits id r hr).of_eq hstatus hattempts
  · intro id hid
    rw [hfailures]
    exact hl.fresh id (by omega)
  · intro u hne
    by_cases hu : t = u
    · rw [← hu]
      exact htick
    · rw [cursor_other hu] at hne
      exact hl.ticks u hne
  · intro u
    by_cases hu : t = u
    · subst hu
      rw [hself]
      exact hdistinct
    · rw [cursor_other hu]
      exact hl.distinct u
  · intro u del hdel
    by_cases hu : t = u
    · subst hu
      rw [hself] at hdel
      obtain ⟨r, hr, _, hcopy, hget⟩ := hbatch del hdel
      have hkey : del.id ≤ w.deliveries.seq := by
        rw [← Table.key_of_get? hr]
        exact w.deliveries.bounded r (Table.mem_of_get? hr)
      refine ⟨by omega, fun r' hr' => ?_⟩
      obtain rfl := Option.some.inj (hget.symm.trans hr')
      rfl
    · rw [cursor_other hu] at hdel
      obtain ⟨hid, hweb⟩ := hl.known u del hdel
      refine ⟨by omega, fun r' hr' => ?_⟩
      obtain ⟨r, hr, _, _, hwebhook⟩ := hrow hr'
      rw [hwebhook]
      exact hweb r hr
  · intro u k del hdel hopen hheld r' hr'
    by_cases hu : t = u
    · subst hu
      rw [hself] at hdel
      obtain ⟨r, hr, hclaim, hcopy, hget⟩ := hbatch del (List.mem_of_getElem? hdel)
      obtain rfl := Option.some.inj (hget.symm.trans hr')
      have hlive := live_of_claimable hclaim
      refine ⟨?_, rfl⟩
      rw [hcopy]
      exact hlive
    · rw [cursor_other hu] at hdel hopen
      obtain ⟨r, hr, hstatus, hattempts, _⟩ := hrow hr'
      rw [hstatus, hattempts]
      refine hl.copies u k del hdel hopen ?_ r hr
      rw [holder_snoc] at hheld
      split at hheld
      · exact absurd (Option.some.inj hheld) hu
      · exact hheld
  · intro u k del x hdel hbegun hlooked hx
    by_cases hu : t = u
    · subst hu
      rw [hself] at hlooked
      cases hlooked
    · rw [cursor_other hu] at hdel hbegun hlooked
      exact gone_step hexec (hl.known u del (List.mem_of_getElem? hdel)).1
        (hl.givenUp u k del x hdel hbegun hlooked hx)
  · intro u k del hdel hk
    by_cases hu : t = u
    · subst hu
      rw [hself] at hk
      exact absurd hk (Nat.not_lt_zero k)
    · rw [cursor_other hu] at hdel hk ⊢
      rcases hl.settled u k del hdel hk with hcur | hrec | hnone
      · exact .inl hcur
      · exact .inr (.inl (hrec.snoc _))
      · exact .inr (.inr (gone_step hexec (hl.known u del (List.mem_of_getElem? hdel)).1 hnone))

/-- **A record** by the holder of a delivery keeps the ledger: it finds the row as its copy has it,
and closes the attempt. -/
theorem Ledger.record {d : Dispatcher} {id : Nat} {o : Outcome} {x : Except Go.Error Nat}
    (hl : Ledger ts d.maxAttempts h w) (hs : TickWarrant d (own t h) (.db (.recordResult id o)))
    (hheld : holder id h = some t) (hcommits : e.fault.commits = true)
    (hexec : exec e w (.db (.recordResult id o)) = some (x, w')) :
    Ledger ts d.maxAttempts (h ++ [⟨t, .db (.recordResult id o), x⟩]) w' := by
  obtain ⟨del₀, ⟨hopen₀, k₀, hbegun₀, hdel₀⟩, rfl, ho⟩ := hs
  have hself : cursor (own t (h ++ [⟨t, .db (.recordResult del₀.id o), x⟩])) =
      { cursor (own t h) with looked := none } :=
    cursor_asked (.db (.recordResult del₀.id o)) x
  have hbatch (u : Nat) : (cursor (own u (h ++ [⟨t, .db (.recordResult del₀.id o), x⟩]))).batch =
      (cursor (own u h)).batch := by
    by_cases hu : t = u
    · subst hu
      rw [hself]
    · rw [cursor_other hu]
  have hholder (i : Nat) :
      holder i (h ++ [⟨t, .db (.recordResult del₀.id o), x⟩]) = holder i h := by
    rw [holder_snoc]
    rfl
  have hrecorded := record_row hcommits hexec
  have hseq := seq_step hexec
  -- the rows of the other deliveries are as they were
  have hother {i : Nat} (hi : del₀.id ≠ i) :
      w'.deliveries.get? i = w.deliveries.get? i ∨ w'.deliveries.get? i = none := by
    have hstep := delivery_step hexec i
    generalize hr : w.deliveries.get? i = r at hstep
    generalize hr' : w'.deliveries.get? i = r' at hstep
    cases hstep with
    | same => exact .inl rfl
    | recorded r _ _ => exact absurd rfl hi
    | deleted => exact .inr rfl
  refine ⟨?_, ?_, owned_step hexec hl.owned, ?_, ?_, ?_, ?_, ?_, ?_⟩
  · intro i r' hr'
    rw [failures_snoc]
    by_cases hi : del₀.id = i
    · subst hi
      rw [hrecorded] at hr'
      obtain ⟨r, hr, rfl⟩ := Option.map_eq_some_iff.mp hr'
      obtain ⟨hlive, hcopy⟩ := hl.copies t k₀ del₀ hdel₀ (.inr ⟨hbegun₀, hopen₀⟩) hheld r hr
      have hfits := (hl.fits _ r hr).record hlive hcopy ho
      cases o with
      | delivered httpStatus => exact hfits
      | failed httpStatus err next =>
        have hone : fails del₀.id ⟨t, .db (.recordResult del₀.id (.failed httpStatus err next)), x⟩ =
            true := beq_self_eq_true _
        rw [if_pos hone]
        exact hfits
    · have hzero : fails i ⟨t, .db (.recordResult del₀.id o), x⟩ = false := by
        cases o with
        | delivered httpStatus => rfl
        | failed httpStatus err next => exact beq_false_of_ne hi
      rw [hzero]
      rcases hother hi with hsame | hnone
      · rw [hsame] at hr'
        exact hl.fits i r' hr'
      · rw [hnone] at hr'
        cases hr'
  · intro i hi
    have hid := (hl.known t del₀ (List.mem_of_getElem? hdel₀)).1
    have hzero : fails i ⟨t, .db (.recordResult del₀.id o), x⟩ = false := by
      cases o with
      | delivered httpStatus => rfl
      | failed httpStatus err next => exact beq_false_of_ne (by omega)
    rw [failures_snoc, hzero]
    exact hl.fresh i (by omega)
  · intro u hne
    rw [hbatch] at hne
    exact hl.ticks u hne
  · intro u
    rw [hbatch]
    exact hl.distinct u
  · intro u del hdel
    rw [hbatch] at hdel
    obtain ⟨hid, hweb⟩ := hl.known u del hdel
    refine ⟨by omega, fun r' hr' => ?_⟩
    by_cases hi : del₀.id = del.id
    · rw [← hi, hrecorded] at hr'
      obtain ⟨r, hr, rfl⟩ := Option.map_eq_some_iff.mp hr'
      rw [hi] at hr
      rw [← hweb r hr]
      cases o <;> rfl
    · rcases hother hi with hsame | hnone
      · rw [hsame] at hr'
        exact hweb r' hr'
      · rw [hnone] at hr'
        cases hr'
  · intro u k del hdel hopen hu r' hr'
    rw [hbatch] at hdel
    rw [hholder] at hu
    by_cases hi : del₀.id = del.id
    · -- its holder has just closed the attempt
      rw [← hi, hheld] at hu
      obtain rfl := Option.some.inj hu
      obtain rfl := index_eq (hl.distinct t) hdel hdel₀ hi.symm
      rw [hself] at hopen
      rcases hopen with hle | ⟨_, hsome⟩
      · have hle : (cursor (own t h)).begun ≤ k := hle
        omega
      · cases hsome
    · have hopen : (cursor (own u h)).Open k := by
        by_cases htu : t = u
        · subst htu
          rw [hself] at hopen
          rcases hopen with hle | ⟨_, hsome⟩
          · exact .inl hle
          · cases hsome
        · rw [cursor_other htu] at hopen
          exact hopen
      rcases hother hi with hsame | hnone
      · rw [hsame] at hr'
        exact hl.copies u k del hdel hopen hu r' hr'
      · rw [hnone] at hr'
        cases hr'
  · intro u k del y hdel hbegun hlooked hy
    by_cases htu : t = u
    · subst htu
      rw [hself] at hlooked
      cases hlooked
    · rw [cursor_other htu] at hdel hbegun hlooked
      exact gone_step hexec (hl.known u del (List.mem_of_getElem? hdel)).1
        (hl.givenUp u k del y hdel hbegun hlooked hy)
  · intro u k del hdel hk
    rw [hbatch] at hdel
    by_cases htu : t = u
    · subst htu
      rw [hself] at hk ⊢
      have hk : k < (cursor (own t h)).begun := hk
      right
      by_cases hlast : k = k₀
      · subst hlast
        obtain rfl := Option.some.inj (hdel₀.symm.trans hdel)
        exact .inl ⟨o, x, List.mem_append_right _ (List.mem_singleton_self _)⟩
      · rcases hl.settled t k del hdel hk with ⟨hcur, _⟩ | hrec | hnone
        · omega
        · exact .inl (hrec.snoc _)
        · exact .inr (gone_step hexec (hl.known t del (List.mem_of_getElem? hdel)).1 hnone)
    · rw [cursor_other htu] at hk ⊢
      rcases hl.settled u k del hdel hk with hcur | hrec | hnone
      · exact .inl hcur
      · exact .inr (.inl (hrec.snoc _))
      · exact .inr (.inr (gone_step hexec (hl.known u del (List.mem_of_getElem? hdel)).1 hnone))

/-- **One statement** keeps the ledger, where it meets the conditions of an orderly run. -/
theorem ledger_step {d : Dispatcher} (hpos : 0 < d.maxAttempts) {task : Task}
    (htask : ts[t]? = some task) {s : Stmt} {x : s.Ans} (hs : task.Warrant d (own t h) s)
    (hheld : ∀ id, about? s = some id → holder id h = some t)
    (hreachable : ∀ id, s = .db (.selectWebhook id) → task = .tick → e.fault = .none ∧
      ∀ wh, w.webhooks.get? id = some wh → ∃ key, signingKey wh = .ok key)
    (hcommits : ∀ id o, s = .db (.recordResult id o) → e.fault.commits = true)
    (hexec : exec e w s = some (x, w')) (hl : Ledger ts d.maxAttempts h w) :
    Ledger ts d.maxAttempts (h ++ [⟨t, s, x⟩]) w' := by
  have hframe (hclaims : ∀ id, claims id ⟨t, s, x⟩ = false)
      (hfails : ∀ id, fails id ⟨t, s, x⟩ = false)
      (hcursor : (cursor (own t h)).next s x = cursor (own t h) ∨
        ((cursor (own t h)).next s x).batch = [])
      (hrecord : ∀ id o, s ≠ .db (.recordResult id o))
      (hinsert : ∀ n, s = .db (.insertDelivery n) → n.status = .pending ∧ n.attempts = 0) :
      Ledger ts d.maxAttempts (h ++ [⟨t, s, x⟩]) w' := by
    refine hl.frame hpos hclaims hfails ?_ (seq_step hexec)
      (undisturbed_step hexec hrecord hinsert) (owned_step hexec hl.owned)
    intro u
    by_cases hu : t = u
    · subst hu
      rw [cursor_asked]
      exact hcursor
    · rw [cursor_other hu]
      exact .inl rfl
  by_cases htick : task = .tick
  · subst htick
    cases s with
    | now | send r | await i =>
      exact hframe (fun _ => rfl) (fun _ => rfl) (.inl rfl) (by simp) (by simp)
    | db s =>
      cases s with
      | claimDeliveries now staleBefore limit =>
        cases x with
        | ok batch => exact hl.claim htask hexec
        | error err =>
          exact hframe (fun _ => rfl) (fun _ => rfl) (.inl rfl) (by simp) (by simp)
      | selectWebhook id =>
        obtain ⟨hfault, hkey⟩ := hreachable id rfl rfl
        obtain rfl := lookup_same hexec
        exact hl.lookup (d := d) hs (lookup_answer hfault hexec) hkey
      | recordResult id o => exact hl.record hs (hheld id rfl) (hcommits id o rfl) hexec
      | listWebhooks | insertWebhook n | updateWebhook n | setWebhookDisabled i b
      | deleteWebhook i | insertDelivery n | selectDelivery i => exact hs.elim
  · have haside : Aside s := by
      cases task with
      | tick => exact absurd rfl htick
      | emit | createWebhook | updateWebhook | setWebhookDisabled | deleteWebhook => exact hs
    have hempty : (cursor (own t h)).batch = [] := by
      by_contra hne
      have := hl.ticks t hne
      rw [htask] at this
      exact htick (Option.some.inj this)
    cases s with
    | now => exact hframe (fun _ => rfl) (fun _ => rfl) (.inl rfl) (by simp) (by simp)
    | send r | await i => exact haside.elim
    | db s =>
      cases s with
      | claimDeliveries now staleBefore limit => exact haside.elim
      | recordResult id o => exact haside.elim
      | selectWebhook id =>
        exact hframe (fun _ => rfl) (fun _ => rfl) (.inr hempty) (by simp) (by simp)
      | insertDelivery n =>
        refine hframe (fun _ => rfl) (fun _ => rfl) (.inl rfl) (by simp) ?_
        rintro _ ⟨⟩
        exact ⟨haside.1, haside.2.1⟩
      | listWebhooks | insertWebhook n | updateWebhook n | setWebhookDisabled i b
      | deleteWebhook i | selectDelivery i =>
        exact hframe (fun _ => rfl) (fun _ => rfl) (.inl rfl) (by simp) (by simp)

/-- Who acts for a delivery that it holds acts for one that is not finished. -/
theorem Ledger.live {d : Dispatcher} (hl : Ledger ts most h w) {task : Task} {s : Stmt} {id : Nat}
    (hs : task.Warrant d (own t h) s) (habout : about? s = some id) (hheld : holder id h = some t)
    {r : Delivery} (hr : w.deliveries.get? id = some r) : r.status.terminal = false := by
  obtain ⟨_, del, ⟨hopen, k, hbegun, hdel⟩, rfl⟩ := acts_of_about hs habout
  exact (hl.copies t k del hdel (.inr ⟨hbegun, hopen⟩) hheld r hr).1

end Ledger

/-! ## Runs -/

theorem maxAttempts_pos (o : Options) : 0 < (Dispatcher.new o).maxAttempts := by
  show 0 < if o.maxAttempts ≤ 0 then (5 : Int) else o.maxAttempts
  split <;> omega

section Runs

variable [Library] {o : Options} {webhooks : Table Webhook} {ts : List Task}
  {moves : Pool.Schedule Env}

/-- **The ledger of an orderly run.** -/
theorem ledger_upto (h : Orderly (.new o) (.fresh webhooks) ts moves) {i : Nat}
    (hi : i ≤ moves.length) :
    Ledger ts (Dispatcher.new o).maxAttempts
      (workingUpto (.new o) (.fresh webhooks) ts moves i).history
      (workingUpto (.new o) (.fresh webhooks) ts moves i).world := by
  induction i with
  | zero => exact ledger_nil webhooks
  | succ i ih =>
    have ih := ih (by omega)
    rcases working_asked _ _ _ hi with hs | ⟨s, x, hasked, hhist⟩
    · rw [hs]
      exact ih
    · obtain ⟨task, htask, hwarrant⟩ := working_may hasked.next
      rw [hhist]
      exact ledger_step (maxAttempts_pos o) htask hwarrant
        (fun id => h.held i _ _ s id hasked.move hasked.next)
        (fun id hs htick => h.reachable i _ _ id hasked.move (htick ▸ htask) (hs ▸ hasked.next))
        (fun id o hs => h.commits i _ _ id o hasked.move (hs ▸ hasked.next)) hasked.exec ih

/-- Keys of deliveries are handed out in order over a run. -/
theorem seq_upto {d : Dispatcher} {w : World} {i j : Nat} (hij : i ≤ j) (hj : j ≤ moves.length) :
    (workingUpto d w ts moves i).world.deliveries.seq ≤
      (workingUpto d w ts moves j).world.deliveries.seq := by
  induction j, hij using Nat.le_induction with
  | base => exact Nat.le_refl _
  | succ j hij ih =>
    refine (ih (by omega)).trans ?_
    rcases working_asked d w ts hj with hs | ⟨s, x, hasked, _⟩
    · rw [hs]
    · exact seq_step hasked.exec

/-- A delivered or dead delivery is as it was after every move of an orderly run. -/
theorem terminal_step (h : Orderly (.new o) (.fresh webhooks) ts moves) {i id : Nat}
    (hi : i < moves.length) {r r' : Delivery} (hterminal : r.status.terminal = true)
    (hr : (workingUpto (.new o) (.fresh webhooks) ts moves i).world.deliveries.get? id = some r)
    (hr' : (workingUpto (.new o) (.fresh webhooks) ts moves (i + 1)).world.deliveries.get? id =
      some r') : r' = r := by
  rcases working_asked _ _ _ hi with hs | ⟨s, x, hasked, _⟩
  · rw [hs, hr] at hr'
    exact (Option.some.inj hr').symm
  · have hstep : DeliveryStep moves[i].2 _ id s
        ((workingUpto (.new o) (.fresh webhooks) ts moves i).world.deliveries.get? id)
        ((workingUpto (.new o) (.fresh webhooks) ts moves (i + 1)).world.deliveries.get? id) :=
      delivery_step hasked.exec id
    rw [hr, hr'] at hstep
    cases hstep with
    | same => rfl
    | claimed _ _ _ _ hclaim =>
      rw [live_of_claimable hclaim] at hterminal
      cases hterminal
    | recorded _ o _ =>
      obtain ⟨task, _, hwarrant⟩ := working_may hasked.next
      have hlive := (ledger_upto h hi.le).live hwarrant rfl
        (h.held i _ _ _ _ hasked.move hasked.next rfl) hr
      rw [hlive] at hterminal
      cases hterminal

/-- What an orderly run asks of one move, as a check: here of every lookup. -/
def orderlyMove (h : List (Interleave.Event sig)) (w : World) (t : Nat) (e : Env) : Stmt → Bool
  | .send r => holder r.delivery h == some t
  | .await id => holder id h == some t
  | .db (.recordResult id _) => holder id h == some t && e.fault.commits
  | .db (.selectWebhook id) =>
    e.fault == .none && (w.webhooks.get? id).all fun wh => (signingKey wh).isOk
  | _ => true

/-- A run whose moves pass the check is orderly. -/
theorem orderly_of_check {d : Dispatcher} {w : World}
    (h : ∀ i (hi : i < moves.length), ∀ s ∈ (workingUpto d w ts moves i).next? moves[i].1,
      orderlyMove (workingUpto d w ts moves i).history (workingUpto d w ts moves i).world moves[i].1
        moves[i].2 s = true) :
    Orderly d w ts moves := by
  have hmove {i t : Nat} {e : Env} {s : Stmt} (hm : moves[i]? = some (t, e))
      (hs : (workingUpto d w ts moves i).next? t = some s) :
      orderlyMove (workingUpto d w ts moves i).history (workingUpto d w ts moves i).world t e s =
        true := by
    obtain ⟨hi, heq⟩ := List.getElem?_eq_some_iff.mp hm
    have hi := h i hi s
    rw [heq] at hi
    exact hi hs
  refine ⟨?_, ?_, ?_⟩
  · intro i t e s id hm hs habout
    have hcheck := hmove hm hs
    cases s with
    | now => cases habout
    | send r | await i =>
      cases habout
      exact beq_iff_eq.mp hcheck
    | db s =>
      cases s with
      | recordResult i o =>
        cases habout
        exact beq_iff_eq.mp (Bool.and_eq_true_iff.mp hcheck).1
      | _ => cases habout
  · intro i t e id hm _ hs
    obtain ⟨hfault, hkey⟩ := Bool.and_eq_true_iff.mp (hmove hm hs)
    refine ⟨beq_iff_eq.mp hfault, fun wh hwh => ?_⟩
    rw [hwh, Option.all_some] at hkey
    cases hsigning : signingKey wh with
    | ok key => exact ⟨key, rfl⟩
    | error e =>
      rw [hsigning] at hkey
      cases hkey
  · intro i t e id o hm hs
    exact (Bool.and_eq_true_iff.mp (hmove hm hs)).2

end Runs

/-! ## Three runs

One event, one webhook that asks for it, and the polls of two dispatchers with default options. -/

/-- A library whose box opens nothing, and that accepts every URL. -/
@[reducible] def sealedLibrary : Library where
  decrypt _ := .error (.driver "cipher: message authentication failed")
  checkURL _ := .ok ()
  hmacSHA256 _ _ := ""

attribute [local instance] sealedLibrary

/-- One webhook, which is told about everything. -/
def oneWebhook (secretEnc : String) : Table Webhook :=
  Table.empty.insert (fun id => { id, name := "ops", url := "https://ops", events := "*", secretEnc })
    fun _ => rfl

/-- An event, and the polls. -/
def eventAndPolls : List Task :=
  [.emit (fun ev => ev.action) "admin" "cert.issue" "" "" "", .tick, .tick]

/-- Some moves of one thread. -/
def movesOf (t n : Nat) (e : Env) : Pool.Schedule Env := List.replicate n (t, e)

/-- The first poll is refused, the second one succeeds. -/
def secondTry : Pool.Schedule Env :=
  movesOf 0 6 { now := 0 } ++ movesOf 1 7 { now := second, response := .ok 503 } ++
    movesOf 2 6 { now := 40 * second }

/-- The first dispatcher stands still until its claim has almost run out; while its request is under
way the second one claims, sends and records the delivery, and then the first one's request times
out. -/
def overtaken : Pool.Schedule Env :=
  movesOf 0 6 { now := 0 } ++ movesOf 1 2 { now := 0 } ++ movesOf 1 2 { now := 115 * second } ++
    movesOf 2 6 { now := 120 * second } ++
    movesOf 1 3 { now := 125 * second, response := .error (.driver "timeout") }

/-- The signing key of the webhook does not decrypt. -/
def unopened : Pool.Schedule Env := movesOf 0 6 { now := 0 } ++ movesOf 1 3 { now := second }

end Goca.Webhooks
