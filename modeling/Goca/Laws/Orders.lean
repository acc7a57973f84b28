import Goca.Laws.Finalize
import Goca.Laws.Samples

/-!
# Orders

An order is finalized by whichever request wins its claim, and `ClaimAcmeOrderForFinalize` is one
conditional update: it finds the order ready once. That is the whole of `one_issuance_per_order`,
whatever fails and whoever stops in between.

The other two statements on an order ask for less. `SetAcmeOrderError` spares an order that is
valid, but not one that another request is issuing for, and `SetAcmeOrderCertificate` asks for
nothing. So a request that read the order as ready, and then rejects its own CSR, can mark the order
invalid behind the request that claimed it, which marks it valid again. `orders_sound_iff` says that
this is the only way for an order to break its rules.
-/

set_option autoImplicit false

namespace Goca

open Goca.Store
open Interleave (Act Prog Pool Trace Event own)
open Interleave.Act

/-! ## What a statement on an order rests on -/

/-- The call finalizes the order that it has read under the id of its request. -/
def Finalizes (c : Call) (o : Nat) (q : Trace sig) : Prop :=
  ∃ orderID body order, c.request = .finalize orderID body ∧
    Saw q (.acme (.selectAcmeOrder orderID)) (.ok (some order)) ∧ order.id = o

/-- An order is stored ready; only a call that finalizes it claims it, and only one that has claimed
it issues for it or links a certificate to it, the one it has stored. -/
def Orderly (c : Call) (q : Trace sig) : Stmt → Prop
  | .acme (.insertAcmeOrder n) => n.status = .ready
  | .acme (.claimAcmeOrderForFinalize o) => Finalizes c o q
  | .acme (.setAcmeOrderCertificate o n) =>
    Finalizes c o q ∧ Claimed o q ∧ ∃ m row, Stored q m row ∧ row.id = n
  | .host (.createCertificate _ _ _ _) | .ca (.insertCertificate _) =>
    ∀ orderID body, c.request = .finalize orderID body → ∃ o, Finalizes c o q ∧ Claimed o q
  | _ => True

/-- A statement of another request is orderly if it has none of the effects on orders. -/
theorem orderly_of_within {c : Call} {ks : List Effect} (h₁ : .insertOrder ∉ ks)
    (h₂ : .claimOrder ∉ ks) (h₃ : .setOrderCertificate ∉ ks)
    (h₄ : (∀ orderID body, c.request ≠ .finalize orderID body) ∨
      (.signCertificate ∉ ks ∧ .insertCertificate ∉ ks)) {q : Trace sig} {s : Stmt}
    (hs : Within ks s) : Orderly c q s := by
  unfold Orderly
  split
  · exact absurd hs h₁
  · exact absurd hs h₂
  · exact absurd hs h₃
  · obtain h₄ | ⟨h₄, _⟩ := h₄
    · exact fun orderID body h => absurd h (h₄ orderID body)
    · exact absurd hs h₄
  · obtain h₄ | ⟨_, h₄⟩ := h₄
    · exact fun orderID body h => absurd h (h₄ orderID body)
    · exact absurd hs h₄
  · exact trivial

/-- **Every call is orderly.** -/
theorem serve_orderly [Go.Runtime] (c : Call) :
    c.serve.Traced (Orderly c) (fun _ _ => True) [] := by
  obtain ⟨acme, request⟩ := c
  by_cases hrequest : ∃ orderID body, request = .finalize orderID body
  · obtain ⟨orderID, body, rfl⟩ := hrequest
    have hfinalizes {q : Trace sig} {order : AcmeOrder} {csr : Pki.CSR} {cn : String}
        (h : FinalizeWarrant orderID order csr cn q) :
        Finalizes ⟨acme, .finalize orderID body⟩ order.id q :=
      ⟨orderID, body, order, rfl, h.found, rfl⟩
    refine replying_traced (finalize_traced acme orderID body ?_ ?_ ?_ ?_ ?_)
    · exact fun q s _ hs => orderly_of_within (by decide) (by decide) (by decide)
        (.inr ⟨by decide, by decide⟩) hs
    · exact fun q order csr cn _ h => hfinalizes h
    · intro q order csr cn cred t row p st _ h hclaimed _ _ _ hst
      obtain ⟨serial, t', _, _, _, rfl⟩ := hst.signature
      exact fun _ _ _ => ⟨order.id, hfinalizes h, hclaimed⟩
    · intro q order csr cn cred days n _ h hclaimed _ _ _ _ _
      exact ⟨order.id, hfinalizes h, hclaimed⟩
    · exact fun q order csr cn n row _ h hclaimed hstored =>
        ⟨hfinalizes h, hclaimed, n, row, hstored, rfl⟩
  · have hother : ∀ orderID body, request ≠ .finalize orderID body :=
      fun orderID body h => hrequest ⟨orderID, body, h⟩
    by_cases hplace : ∃ body, request = .newOrder body
    · obtain ⟨body, rfl⟩ := hplace
      refine replying_traced (newOrder_traced acme body ?_ fun q n _ h => h.ready)
      exact fun q s _ hs => orderly_of_within (by decide) (by decide) (by decide)
        (.inr ⟨by decide, by decide⟩) hs
    · have hks : Effect.insertOrder ∉ request.effects ∧ Effect.claimOrder ∉ request.effects ∧
          Effect.setOrderCertificate ∉ request.effects := by
        cases request with
        | finalize orderID body => exact absurd rfl (hother orderID body)
        | newOrder body => exact absurd ⟨body, rfl⟩ hplace
        | _ => simp [Request.effects]
      obtain ⟨h₁, h₂, h₃⟩ := hks
      exact (serve_uses ⟨acme, request⟩).traced.mono
        (fun q s hs => orderly_of_within h₁ h₂ h₃ (.inl hother) hs) fun _ _ _ => trivial

/-! ## The ledger of an order -/

/-- The order `o` refers to certificate `n`. -/
def LinkedTo (o n : Nat) (w : World) : Prop :=
  (w.acme.orders.get? o).bind (·.certificateID) = some n

/-- The event by which thread `t` claimed order `o`. -/
def claimEvent (t o : Nat) : Event sig :=
  ⟨t, .acme (.claimAcmeOrderForFinalize o), .ok (1 : Nat)⟩

/-- The event by which thread `t` stored a certificate under the number `n`. -/
def storeEvent (t : Nat) (c : Certificate) (n : Nat) : Event sig :=
  ⟨t, .ca (.insertCertificate c), .ok n⟩

/-- Signing a certificate and storing one are what issuance consists of. -/
def Issues (s : Stmt) : Prop :=
  Stmt.effect? s = some .signCertificate ∨ Stmt.effect? s = some .insertCertificate

/-- What the history says about order `o`, in a run that started from `w₀`. -/
structure OrderLedger (calls : List Call) (o : Nat) (w₀ : World) (h : List (Event sig))
    (w : World) : Prop where
  /-- Rows are answered under their own numbers. -/
  selected : ∀ t i r, ⟨t, .acme (.selectAcmeOrder i), .ok (some r)⟩ ∈ h → r.id = i
  readBack : ∀ t n c, ⟨t, .ca (.selectCertificate n), .ok (some c)⟩ ∈ h → c.id = n
  /-- One thread claimed the order, and the order is past being ready. -/
  single : ∀ t t', claimEvent t o ∈ h → claimEvent t' o ∈ h → t = t'
  claimed : ∀ t, claimEvent t o ∈ h → ∃ r, w.acme.orders.get? o = some r ∧ r.status ≠ .ready
  /-- A call that finalizes the order and issues has claimed it. -/
  issued : ∀ t s x c body, ⟨t, s, x⟩ ∈ h → Issues s → calls[t]? = some c →
    c.request = .finalize o body → claimEvent t o ∈ h
  /-- A certificate that was stored is still there. -/
  stored : ∀ t c n, storeEvent t c n ∈ h → (w.ca.certificates.get? n).isSome = true
  /-- The order refers to a certificate that the call which claimed it has stored. -/
  linked : ∀ n, LinkedTo o n w → LinkedTo o n w₀ ∨ ∃ t c cert body, calls[t]? = some c ∧
    c.request = .finalize o body ∧ claimEvent t o ∈ h ∧ storeEvent t cert n ∈ h

theorem orderLedger_init (calls : List Call) (o : Nat) (w : World) :
    OrderLedger calls o w [] w where
  selected := by simp
  readBack := by simp
  single := by simp
  claimed := by simp
  issued := by simp
  stored := by simp
  linked := fun _ h => .inl h

section Step

variable [Go.Runtime] {calls : List Call} {o : Nat} {w₀ w w' : World} {h : List (Event sig)}
  {e : Env} {c : Call} {t : Nat} {s : Stmt} {x : s.Ans}

omit [Go.Runtime] in
/-- What a call has read of the order it finalizes is the order of its request. -/
theorem OrderLedger.request_of_finalizes (hl : OrderLedger calls o w₀ h w) {i : Nat}
    (hf : Finalizes c i (own t h)) : ∃ body, c.request = .finalize i body := by
  obtain ⟨orderID, body, order, hc, hsaw, rfl⟩ := hf
  rw [hl.selected t orderID order (Interleave.mem_own.mp hsaw)]
  exact ⟨body, hc⟩

/-- What is asked for an order that has been claimed leaves it claimed, or past that. -/
theorem not_ready_step (hx : exec e w s = some (x, w')) {r : AcmeOrder}
    (hr : w.acme.orders.get? o = some r) (hready : r.status ≠ .ready) :
    ∃ r', w'.acme.orders.get? o = some r' ∧ r'.status ≠ .ready := by
  have hstep := order_step hx o
  rw [hr] at hstep
  generalize w'.acme.orders.get? o = r' at hstep ⊢
  cases hstep with
  | same => exact ⟨r, rfl, hready⟩
  | failed problem _ hc hr => exact ⟨_, rfl, nofun⟩
  | claimed _ hc hr => exact ⟨_, rfl, nofun⟩
  | completed certID _ hc => exact ⟨_, rfl, nofun⟩

/-- A statement that links an order to another certificate asks for that. -/
theorem linked_step (hx : exec e w s = some (x, w')) {n : Nat} (hn : LinkedTo o n w') :
    LinkedTo o n w ∨ s = .acme (.setAcmeOrderCertificate o n) := by
  have hstep := order_step hx o
  unfold LinkedTo at *
  generalize w.acme.orders.get? o = r, w'.acme.orders.get? o = r' at hstep hn ⊢
  cases hstep with
  | same => exact .inl hn
  | inserted n hc => cases hn
  | failed problem r hc hr => exact .inl hn
  | claimed r hc hr => exact .inl hn
  | completed certID r hc =>
    cases Option.some.inj hn
    exact .inr rfl

/-- **The step of the ledger.** -/
theorem OrderLedger.step (hl : OrderLedger calls o w₀ h w) (hc : calls[t]? = some c)
    (horderly : Orderly c (own t h) s) (hx : exec e w s = some (x, w')) :
    OrderLedger calls o w₀ (h ++ [⟨t, s, x⟩]) w' where
  selected := by
    intro u i r hmem
    rcases List.mem_append.mp hmem with hu | hu
    · exact hl.selected u i r hu
    · cases List.mem_singleton.mp hu
      exact Sql.Table.key_of_get? (get?_of_selectAcmeOrder hx)
  readBack := by
    intro u n row hmem
    rcases List.mem_append.mp hmem with hu | hu
    · exact hl.readBack u n row hu
    · cases List.mem_singleton.mp hu
      exact Sql.Table.key_of_get? (get?_of_selectCertificate hx)
  single := by
    -- A claim that succeeds now finds the order ready, as it is not after another claim.
    have hnew (u : Nat) (hu : claimEvent u o ∈ h) (heq : claimEvent t o = ⟨t, s, x⟩) : False := by
      cases heq
      obtain ⟨r, hr, hnot⟩ := hl.claimed u hu
      obtain ⟨r', hr', hready, _⟩ := ready_of_claimed hx
      obtain rfl : r = r' := Option.some.inj (hr.symm.trans hr')
      exact hnot hready
    intro u u' hm hm'
    rcases List.mem_append.mp hm with hu | hu <;> rcases List.mem_append.mp hm' with hu' | hu'
    · exact hl.single u u' hu hu'
    · have heq := List.mem_singleton.mp hu'
      obtain rfl : u' = t := congrArg Event.thread heq
      exact (hnew u hu heq).elim
    · have heq := List.mem_singleton.mp hu
      obtain rfl : u = t := congrArg Event.thread heq
      exact (hnew u' hu' heq).elim
    · exact congrArg Event.thread
        ((List.mem_singleton.mp hu).trans (List.mem_singleton.mp hu').symm)
  claimed := by
    intro u hmem
    rcases List.mem_append.mp hmem with hu | hu
    · obtain ⟨r, hr, hnot⟩ := hl.claimed u hu
      exact not_ready_step hx hr hnot
    · cases List.mem_singleton.mp hu
      obtain ⟨r, _, _, hr⟩ := ready_of_claimed hx
      exact ⟨r.claimed, hr, nofun⟩
  issued := by
    intro u s' x' c' body hmem hissues hc' hreq
    rcases List.mem_append.mp hmem with hu | hu
    · exact List.mem_append_left _ (hl.issued u s' x' c' body hu hissues hc' hreq)
    · cases List.mem_singleton.mp hu
      obtain rfl : c = c' := Option.some.inj (hc.symm.trans hc')
      have hclaims : ∃ i, Finalizes c i (own t h) ∧ Claimed i (own t h) := by
        cases s with
        | ca s =>
          cases s with
          | insertCertificate n => exact horderly o body hreq
          | _ => simp [Issues, Stmt.effect?] at hissues
        | host s =>
          cases s with
          | createCertificate tmpl parent pub priv => exact horderly o body hreq
          | _ => simp [Issues, Stmt.effect?] at hissues
        | acme s => cases s <;> simp [Issues, Stmt.effect?] at hissues
        | audit => simp [Issues, Stmt.effect?] at hissues
      obtain ⟨i, hfinalizes, hclaimed⟩ := hclaims
      obtain ⟨body', hreq'⟩ := hl.request_of_finalizes hfinalizes
      cases hreq.symm.trans hreq'
      exact List.mem_append_left _ (Interleave.mem_own.mp hclaimed)
  stored := by
    intro u row n hmem
    rcases List.mem_append.mp hmem with hu | hu
    · exact cert_kept hx (hl.stored u row n hu)
    · cases List.mem_singleton.mp hu
      rw [get?_of_insertCertificate hx]
      rfl
  linked := by
    intro n hn
    obtain hn | rfl := linked_step hx hn
    · obtain hn | ⟨u, c', cert, body, hc', hreq, hclaim, hstore⟩ := hl.linked n hn
      · exact .inl hn
      · exact .inr ⟨u, c', cert, body, hc', hreq, List.mem_append_left _ hclaim,
          List.mem_append_left _ hstore⟩
    · obtain ⟨hfinalizes, hclaimed, m, row, ⟨⟨cert, hstore⟩, hback⟩, rfl⟩ := horderly
      obtain ⟨body, hreq⟩ := hl.request_of_finalizes hfinalizes
      rw [hl.readBack t m row (Interleave.mem_own.mp hback)]
      exact .inr ⟨t, c, cert, body, hc, hreq,
        List.mem_append_left _ (Interleave.mem_own.mp hclaimed),
        List.mem_append_left _ (Interleave.mem_own.mp hstore)⟩

end Step

/-! ## At most one certificate for an order -/

section Run

variable [Go.Runtime] (w : World) (calls : List Call) (moves : Pool.Schedule Env) (o : Nat)

/-- The ledger of order `o` after a schedule. -/
theorem orderLedger_served :
    OrderLedger calls o w (served w calls moves).history (served w calls moves).world :=
  served_invariant serve_orderly (orderLedger_init calls o w)
    (fun _ _ _ _ _ _ _ _ hc horderly hx hl => hl.step hc horderly hx) moves

/-- Thread `t` finalizes order `o` and has reached issuance: its claim was answered with one row, or
it has asked for a signature or stored a certificate. -/
def ReachesIssuance (t : Nat) : Prop :=
  (∃ c body, calls[t]? = some c ∧ c.request = .finalize o body) ∧
    (claimEvent t o ∈ (served w calls moves).history ∨
      ∃ s x, ⟨t, s, x⟩ ∈ (served w calls moves).history ∧ Issues s)

variable {w calls moves o}

/-- Whoever reaches issuance has claimed the order. -/
theorem ReachesIssuance.claimed {t : Nat} (h : ReachesIssuance w calls moves o t) :
    claimEvent t o ∈ (served w calls moves).history := by
  obtain ⟨⟨c, body, hc, hreq⟩, hclaim | ⟨s, x, hmem, hissues⟩⟩ := h
  · exact hclaim
  · exact (orderLedger_served w calls moves o).issued t s x c body hmem hissues hc hreq

/-- **At most one certificate for an order**: after every schedule of any calls, whatever failed and
whoever stopped, at most one of them has reached issuance for the order, and a certificate that the
order has come to refer to was stored by that one. -/
theorem one_issuance_per_order (w : World) (calls : List Call) (moves : Pool.Schedule Env)
    (o : Nat) :
    (∀ t t', ReachesIssuance w calls moves o t → ReachesIssuance w calls moves o t' → t = t') ∧
      ∀ n, LinkedTo o n (served w calls moves).world → LinkedTo o n w ∨
        ∃ t cert, ReachesIssuance w calls moves o t ∧
          storeEvent t cert n ∈ (served w calls moves).history := by
  refine ⟨fun t t' h h' => ?_, fun n hn => ?_⟩
  · exact (orderLedger_served w calls moves o).single t t' h.claimed h'.claimed
  · obtain hn | ⟨t, c, cert, body, hc, hreq, hclaim, hstore⟩ :=
      (orderLedger_served w calls moves o).linked n hn
    · exact .inl hn
    · exact .inr ⟨t, cert, ⟨⟨c, body, hc, hreq⟩, .inl hclaim⟩, hstore⟩

/-! ## The rules of an order -/

/-- The error of an order goes with `invalid`, and its certificate with `valid`. -/
structure Consistent (r : AcmeOrder) : Prop where
  error : r.error.isSome = true ↔ r.status = .invalid
  certificate : r.certificateID.isSome = true ↔ r.status = .valid

/-- An order in this status does not change it again. -/
def AcmeStatus.terminal (s : AcmeStatus) : Prop := s = .valid ∨ s = .invalid

/-- The row of an order. -/
def orderRow (o : Nat) (w : World) : Option AcmeOrder := w.acme.orders.get? o

variable (w calls moves o)

/-- Order `o` keeps its rules in every state of the run. -/
structure OrderSound : Prop where
  consistent : ∀ i r, i ≤ moves.length → orderRow o (servedUpto w calls moves i).world = some r →
    Consistent r
  terminal : ∀ i j r, i ≤ j → j ≤ moves.length →
    orderRow o (servedUpto w calls moves i).world = some r → AcmeStatus.terminal r.status →
    ∃ r', orderRow o (servedUpto w calls moves j).world = some r' ∧ r'.status = r.status

/-- At move `i` a request marks order `o` invalid while the order is being processed. -/
def FailedInProcess (i : Nat) : Prop :=
  ∃ t e problem r, moves[i]? = some (t, e) ∧ 0 < e.now ∧ e.fault.commits = true ∧
    (servedUpto w calls moves i).next? t = some (.acme (.setAcmeOrderError o problem)) ∧
    orderRow o (servedUpto w calls moves i).world = some r ∧ r.status = .processing

/-- At move `j` a certificate is linked to order `o`. -/
def LinkedAt (j : Nat) : Prop :=
  ∃ t e n, moves[j]? = some (t, e) ∧ 0 < e.now ∧ e.fault.commits = true ∧
    (servedUpto w calls moves j).next? t = some (.acme (.setAcmeOrderCertificate o n))

/-- Order `o` is overtaken: a request marks it invalid behind the one that is issuing for it, and
then that one links its certificate. -/
def OrderOvertaken : Prop :=
  ∃ i j, i < j ∧ FailedInProcess w calls moves o i ∧ LinkedAt w calls moves o j

variable {w calls moves o}

/-- What is known of order `o` at move `n` of a run in which it is not overtaken. -/
structure OrderState (w : World) (calls : List Call) (moves : Pool.Schedule Env) (o n : Nat) :
    Prop where
  consistent : ∀ r, orderRow o (servedUpto w calls moves n).world = some r → Consistent r
  /-- An order that was claimed is in process or valid, unless it was marked invalid behind the
  request that claimed it or by that request itself. -/
  claimed : ∀ t, claimEvent t o ∈ (servedUpto w calls moves n).history →
    ∃ r, orderRow o (servedUpto w calls moves n).world = some r ∧
      (r.status = .processing ∨ r.status = .valid ∨
        (r.status = .invalid ∧ ∃ i, i < n ∧ FailedInProcess w calls moves o i))

/-- A certificate is not linked to an order that is invalid, unless the order is overtaken: the
request that links it has claimed the order. -/
theorem OrderState.not_invalid_of_linked {n : Nat} (hover : ¬ OrderOvertaken w calls moves o)
    (hst : OrderState w calls moves o n) {t certID : Nat} {e : Env} {x : Except Go.Error Unit}
    (hasked : Pool.AskedAt exec (serving w calls) moves n t e
      (.acme (.setAcmeOrderCertificate o certID)) x) (hc : e.fault.commits = true) {r : AcmeOrder}
    (hr : orderRow o (servedUpto w calls moves n).world = some r) : r.status ≠ .invalid := by
  intro hinvalid
  obtain ⟨_, _, _, hclaimed, _⟩ := allowed_upto serve_orderly hasked.next
  obtain ⟨r', hr', hstatus⟩ := hst.claimed t (Interleave.mem_own.mp hclaimed)
  obtain rfl : r = r' := Option.some.inj (hr.symm.trans hr')
  rw [hinvalid] at hstatus
  obtain hstatus | hstatus | ⟨_, i, hi, hfailed⟩ := hstatus
  · cases hstatus
  · cases hstatus
  · exact hover ⟨i, n, hi, hfailed, t, e, certID, hasked.move, exec_now_pos hasked.exec, hc,
      hasked.next⟩

omit [Go.Runtime] in
/-- A statement keeps an order consistent if orders are stored ready and no certificate is linked to
an invalid one. -/
theorem consistent_step {e : Env} {s : Stmt} {r r' : Option AcmeOrder}
    (hstep : OrderStep e o s r r')
    (hready : ∀ n, s = .acme (.insertAcmeOrder n) → n.status = .ready)
    (hlink : ∀ certID, s = .acme (.setAcmeOrderCertificate o certID) → e.fault.commits = true →
      ∀ r₀, r = some r₀ → r₀.status ≠ .invalid)
    (h : ∀ r₀, r = some r₀ → Consistent r₀) : ∀ r₁, r' = some r₁ → Consistent r₁ := by
  intro r₁ hr₁
  cases hstep with
  | same => exact h r₁ hr₁
  | inserted n hc =>
    cases hr₁
    have hstatus := hready n rfl
    exact ⟨by simp [hstatus], by simp [hstatus]⟩
  | failed problem r hc hr =>
    cases hr₁
    have hnone := (h r rfl).certificate
    exact ⟨by simp [AcmeOrder.failed], by simpa [AcmeOrder.failed, hr] using hnone⟩
  | claimed r hc hr =>
    cases hr₁
    have hboth := h r rfl
    exact ⟨by simpa [AcmeOrder.claimed, hr] using hboth.error,
      by simpa [AcmeOrder.claimed, hr] using hboth.certificate⟩
  | completed certID r hc =>
    cases hr₁
    have hnone := (h r rfl).error
    have hvalid := hlink certID rfl hc r rfl
    exact ⟨by simpa [AcmeOrder.completed, hvalid] using hnone, by simp [AcmeOrder.completed]⟩

omit [Go.Runtime] in
/-- And a terminal status does not change. -/
theorem terminal_step {e : Env} {s : Stmt} {r : AcmeOrder} {r' : Option AcmeOrder}
    (hstep : OrderStep e o s (some r) r')
    (hlink : ∀ certID, s = .acme (.setAcmeOrderCertificate o certID) → e.fault.commits = true →
      r.status ≠ .invalid) (h : AcmeStatus.terminal r.status) :
    ∃ r₁, r' = some r₁ ∧ r₁.status = r.status := by
  cases hstep with
  | same => exact ⟨r, rfl, rfl⟩
  | failed problem _ hc hr => exact ⟨_, rfl, (h.resolve_left hr).symm⟩
  | claimed _ hc hr => obtain h | h := h <;> cases hr.symm.trans h
  | completed certID _ hc => exact ⟨_, rfl, (h.resolve_right (hlink certID rfl hc)).symm⟩

/-- The place of an order after a claim, kept by a statement. -/
theorem OrderState.claimed_step {n t : Nat} {e : Env} {s : Stmt} {x : s.Ans}
    (hst : OrderState w calls moves o n)
    (hasked : Pool.AskedAt exec (serving w calls) moves n t e s x) {u : Nat}
    (hu : claimEvent u o ∈ (servedUpto w calls moves n).history ++ [⟨t, s, x⟩]) :
    ∃ r, orderRow o (servedUpto w calls moves (n + 1)).world = some r ∧
      (r.status = .processing ∨ r.status = .valid ∨
        (r.status = .invalid ∧ ∃ i, i < n + 1 ∧ FailedInProcess w calls moves o i)) := by
  rcases List.mem_append.mp hu with hu | hu
  · obtain ⟨r, hr, hstatus⟩ := hst.claimed u hu
    have hfailed : r.status = .invalid → ∃ i, i < n + 1 ∧ FailedInProcess w calls moves o i := by
      intro hinvalid
      rw [hinvalid] at hstatus
      obtain hstatus | hstatus | ⟨_, i, hi, hfailed⟩ := hstatus
      · cases hstatus
      · cases hstatus
      · exact ⟨i, by omega, hfailed⟩
    have hstep : OrderStep e o s _ _ := order_step hasked.exec o
    change OrderStep e o s (orderRow o (servedUpto w calls moves n).world)
      (orderRow o (servedUpto w calls moves (n + 1)).world) at hstep
    rw [hr] at hstep
    generalize orderRow o (servedUpto w calls moves (n + 1)).world = r' at hstep ⊢
    cases hstep with
    | same =>
      refine ⟨r, rfl, ?_⟩
      obtain h | h | ⟨h, _⟩ := hstatus
      · exact .inl h
      · exact .inr (.inl h)
      · exact .inr (.inr ⟨h, hfailed h⟩)
    | failed problem _ hc hnot =>
      refine ⟨_, rfl, .inr (.inr ⟨rfl, ?_⟩)⟩
      obtain h | h | ⟨h, _⟩ := hstatus
      · exact ⟨n, by omega, t, e, problem, r, hasked.move, exec_now_pos hasked.exec, hc,
          hasked.next, hr, h⟩
      · exact absurd h hnot
      · exact hfailed h
    | claimed _ hc hready => exact ⟨_, rfl, .inl rfl⟩
    | completed certID _ hc => exact ⟨_, rfl, .inr (.inl rfl)⟩
  · cases List.mem_singleton.mp hu
    obtain ⟨r, _, _, hr⟩ := ready_of_claimed hasked.exec
    exact ⟨r.claimed, hr, .inl rfl⟩

/-- **The step of an order** that is not overtaken. -/
theorem OrderState.step {n : Nat} (hn : n < moves.length)
    (hover : ¬ OrderOvertaken w calls moves o) (hst : OrderState w calls moves o n) :
    OrderState w calls moves o (n + 1) ∧
      ∀ r, orderRow o (servedUpto w calls moves n).world = some r → AcmeStatus.terminal r.status →
        ∃ r', orderRow o (servedUpto w calls moves (n + 1)).world = some r' ∧
          r'.status = r.status := by
  obtain hs | ⟨s, x, hasked, hhist⟩ := Pool.upto_asked exec (serving w calls) hn
  · have hsame : servedUpto w calls moves (n + 1) = servedUpto w calls moves n := hs
    rw [hsame]
    refine ⟨⟨by rw [hsame]; exact hst.consistent, fun t ht => ?_⟩, fun r hr _ => ⟨r, hr, rfl⟩⟩
    rw [hsame] at ht ⊢
    obtain ⟨r, hr, hstatus⟩ := hst.claimed t ht
    refine ⟨r, hr, hstatus.imp_right (Or.imp_right fun ⟨h, i, hi, hfailed⟩ => ?_)⟩
    exact ⟨h, i, by omega, hfailed⟩
  · have hstep : OrderStep moves[n].2 o s (orderRow o (servedUpto w calls moves n).world)
        (orderRow o (servedUpto w calls moves (n + 1)).world) := order_step hasked.exec o
    have hlink : ∀ certID, s = .acme (.setAcmeOrderCertificate o certID) →
        moves[n].2.fault.commits = true →
        ∀ r, orderRow o (servedUpto w calls moves n).world = some r → r.status ≠ .invalid := by
      rintro certID rfl hc r hr
      exact hst.not_invalid_of_linked hover hasked hc hr
    obtain ⟨c, _, horderly⟩ := allowed_upto serve_orderly hasked.next
    refine ⟨⟨consistent_step hstep ?_ hlink hst.consistent, fun t ht => ?_⟩, fun r hr h => ?_⟩
    · rintro n rfl
      exact horderly
    · have hhist' : (servedUpto w calls moves (n + 1)).history = _ := hhist
      rw [hhist'] at ht
      exact hst.claimed_step hasked ht
    · rw [hr] at hstep
      exact terminal_step hstep (fun certID hs hc => hlink certID hs hc r hr) h

/-- What is known of an order at every move of a run in which it is not overtaken. -/
theorem orderState_upto (hstart : ∀ r, orderRow o w = some r → Consistent r)
    (hover : ¬ OrderOvertaken w calls moves o) {n : Nat} (hn : n ≤ moves.length) :
    OrderState w calls moves o n := by
  induction n with
  | zero => exact ⟨hstart, fun t ht => absurd ht List.not_mem_nil⟩
  | succ n ih => exact ((ih (by omega)).step hn hover).1

/-- The link of a certificate makes the order valid. -/
theorem valid_of_linkedAt {j : Nat} (h : LinkedAt w calls moves o j) {r : AcmeOrder}
    (hr : orderRow o (servedUpto w calls moves j).world = some r) :
    ∃ r', orderRow o (servedUpto w calls moves (j + 1)).world = some r' ∧ r'.status = .valid := by
  obtain ⟨t, e, certID, hmove, hnow, hc, hnext⟩ := h
  obtain ⟨x, hasked⟩ := asked_acme hmove hnow hnext
  -- The certificate was stored, so the reference to it is accepted.
  obtain ⟨_, _, _, _, m, row, ⟨⟨cert, hstore⟩, hback⟩, hid⟩ := allowed_upto serve_orderly hnext
  have hl := orderLedger_served w calls (moves.take j) o
  have hm : certID = m := hid.symm.trans (hl.readBack t m row (Interleave.mem_own.mp hback))
  have hcert := hl.stored t cert m (Interleave.mem_own.mp hstore)
  obtain ⟨_, _, hw⟩ := exec_acme hasked.exec
  refine ⟨r.completed certID, ?_, rfl⟩
  rw [← hm] at hcert
  have hrow := get?_completed e _ (servedUpto w calls moves j).world.acme o hcert
  rw [orderRow, servedUpto, hw]
  show (e.fault.apply _ _ : _ × AcmeTables).2.orders.get? o = _
  rw [Fault.apply_commits hc]
  exact hrow.trans (congrArg _ hr)

/-- The error makes an order in process invalid. -/
theorem invalid_of_failedInProcess {i : Nat} (h : FailedInProcess w calls moves o i) :
    i < moves.length ∧
      ∃ r, orderRow o (servedUpto w calls moves (i + 1)).world = some r ∧ r.status = .invalid := by
  obtain ⟨t, e, problem, r, hmove, hnow, hc, hnext, hr, hstatus⟩ := h
  obtain ⟨x, hasked⟩ := asked_acme hmove hnow hnext
  obtain ⟨_, _, hw⟩ := exec_acme hasked.exec
  refine ⟨(List.getElem?_eq_some_iff.mp hmove).1, r.failed problem, ?_, rfl⟩
  rw [orderRow, servedUpto, hw]
  show (e.fault.apply _ _ : _ × AcmeTables).2.orders.get? o = _
  rw [Fault.apply_commits hc]
  exact get?_failed e _ _ problem hr (by rw [hstatus]; decide)

/-- **The state machine of an order**: in a run of any calls from an order that keeps its rules, it
keeps them in every state exactly when no request marks it invalid behind the one that is issuing
for it and then links its certificate. -/
theorem orders_sound_iff (w : World) (calls : List Call) (moves : Pool.Schedule Env) (o : Nat)
    (hstart : ∀ r, orderRow o w = some r → Consistent r) :
    OrderSound w calls moves o ↔ ¬ OrderOvertaken w calls moves o := by
  constructor
  · rintro hsound ⟨i, j, hij, hfailed, hlinked⟩
    obtain ⟨hi, r, hr, hinvalid⟩ := invalid_of_failedInProcess hfailed
    have hj : j < moves.length := by
      obtain ⟨t, e, n, hmove, _⟩ := hlinked
      exact (List.getElem?_eq_some_iff.mp hmove).1
    have hkept (k : Nat) (hik : i + 1 ≤ k) (hk : k ≤ moves.length) :
        ∃ r', orderRow o (servedUpto w calls moves k).world = some r' ∧ r'.status = .invalid := by
      rw [← hinvalid]
      exact hsound.terminal (i + 1) k r hik hk hr (.inr hinvalid)
    obtain ⟨r₁, hr₁, _⟩ := hkept j (by omega) (by omega)
    obtain ⟨r₂, hr₂, hinvalid₂⟩ := hkept (j + 1) (by omega) (by omega)
    obtain ⟨r₃, hr₃, hvalid⟩ := valid_of_linkedAt hlinked hr₁
    obtain rfl : r₂ = r₃ := Option.some.inj (hr₂.symm.trans hr₃)
    cases hinvalid₂.symm.trans hvalid
  · intro hover
    refine ⟨fun i r hi hr => (orderState_upto hstart hover hi).consistent r hr, ?_⟩
    intro i j r hij hj hr hterminal
    induction hij with
    | refl => exact ⟨r, hr, rfl⟩
    | @step j _ ih =>
      obtain ⟨r', hr', hstatus⟩ := ih (by omega)
      obtain ⟨_, hkept⟩ := (orderState_upto hstart hover (by omega)).step hj hover
      rw [← hstatus] at hterminal ⊢
      exact hkept r' hr' hterminal

end Run

/-! ## An order that is overtaken -/

open Samples

/-- Two requests to finalize order 1, and only the first of them with a CSR that fits. -/
def goodAndBad : List Call :=
  [⟨replica, .finalize 1 (finalization "n0" ["host.internal"])⟩,
    ⟨replica, .finalize 1 (finalization "n1" ["other.internal"])⟩]

/-- The second request reads the order as ready and rejects its CSR; the first one claims the order;
the second marks it invalid; the first one issues, and links the certificate. -/
def behindTheClaim : Pool.Schedule Env :=
  inTurn (List.replicate 6 1 ++ List.replicate 8 0 ++ [1] ++ List.replicate 12 0)

theorem consistent_order : Consistent order := ⟨by decide, by decide⟩

/-- The rules of order 1 in the run of the two requests. -/
theorem orders_sound_goodAndBad :
    @OrderSound Go.asciiRuntime (orderInstallation ["n0", "n1"]) goodAndBad behindTheClaim 1 ↔
      ¬ @OrderOvertaken Go.asciiRuntime (orderInstallation ["n0", "n1"]) goodAndBad
        behindTheClaim 1 := by
  let _ := Go.asciiRuntime
  refine orders_sound_iff _ _ _ _ ?_
  rintro r ⟨⟩
  exact consistent_order

/-- An invalid order becomes valid. -/
theorem invalid_order_completed :
    ¬ @OrderSound Go.asciiRuntime (orderInstallation ["n0", "n1"]) goodAndBad behindTheClaim 1 := by
  let _ := Go.asciiRuntime
  intro h
  have hinvalid : (orderRow 1 (servedUpto (orderInstallation ["n0", "n1"]) goodAndBad
      behindTheClaim 15).world).map (·.status) = some .invalid := by decide +kernel
  have hvalid : (orderRow 1 (servedUpto (orderInstallation ["n0", "n1"]) goodAndBad
      behindTheClaim 27).world).map (·.status) = some .valid := by decide +kernel
  obtain ⟨r, hr, hstatus⟩ := Option.map_eq_some_iff.mp hinvalid
  obtain ⟨r', hr', hstatus'⟩ := h.terminal 15 27 r (by decide) (by decide) hr (.inr hstatus)
  rw [hr', Option.map_some, hstatus', hstatus] at hvalid
  cases hvalid

end Goca
