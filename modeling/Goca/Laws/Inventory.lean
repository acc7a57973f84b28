import Goca.Lib.Lockstep
import Goca.Acme.Certificate
import Goca.Store.Step
import Goca.Laws.Samples

/-!
# A download says nothing of other tenants

`GetCertificatePEM` in two databases that look the same to the account that asks: where the
certificate is none of its own, both calls ask the same statements and answer the same, whatever
else the databases hold, and whatever the environment does. So neither the answer nor what the call
changes depends on whether the certificate is there, who owns it or what became of it.
-/

set_option autoImplicit false

namespace Goca

open Goca.Acme (Body)
open Goca.Pki (X509)
open Goca.Store
open Interleave (Act Pool Prog)
open Interleave.Act (Alike Lockstep lockstep_pure lockstep_throw lockstep_ofExcept lockstep_failIf)
open Interleave.Prog (asked)

/-- The account that a body names as its signer. -/
def caller (body : Body) : Option Nat := (Acme.parseJWS body).toOption.bind fun j =>
  Acme.accountIDOf j.keyID

/-- Two databases agree on everything that belongs to an account: its row, its credential, its
orders and what hangs on them. The nonces belong to everybody. -/
structure SameFor (c : Option Nat) (w w' : World) : Prop where
  nonces : w.acme.nonces = w'.acme.nonces
  account : ∀ a ∈ c, w.acme.accounts.get? a = w'.acme.accounts.get? a
  credential : ∀ a ∈ c, ∀ r, w.acme.accounts.get? a = some r →
    w.acme.eabCreds.get? r.eabID = w'.acme.eabCreds.get? r.eabID
  orders : ∀ a ∈ c, ∀ o : AcmeOrder, o.accountID = a →
    (o ∈ w.acme.orders.rows ↔ o ∈ w'.acme.orders.rows)
  authorizations : ∀ a ∈ c, ∀ o ∈ w.acme.orders.rows, o.accountID = a →
    ∀ z : AcmeAuthorization, z.orderID = o.id →
      (z ∈ w.acme.authorizations.rows ↔ z ∈ w'.acme.authorizations.rows)
  challenges : ∀ a ∈ c, ∀ o ∈ w.acme.orders.rows, o.accountID = a →
    ∀ z ∈ w.acme.authorizations.rows, z.orderID = o.id → ∀ h : AcmeChallenge,
      h.authorizationID = z.id → (h ∈ w.acme.challenges.rows ↔ h ∈ w'.acme.challenges.rows)
  certificates : ∀ a ∈ c, ∀ o ∈ w.acme.orders.rows, o.accountID = a → ∀ n,
    o.certificateID = some n → w.ca.certificates.get? n = w'.ca.certificates.get? n

/-- No order of the account produced the certificate. -/
def Foreign (c : Option Nat) (certID : Nat) (w : World) : Prop :=
  ∀ a ∈ c, ∀ o ∈ w.acme.orders.rows, o.accountID = a → o.certificateID ≠ some certID

/-- What a download may have changed since `w₀`: the nonces, and the caller's row. -/
structure StoreEffect (c : Option Nat) (w₀ w : World) : Prop where
  rest : w = { w₀ with
    acme := { w₀.acme with nonces := w.acme.nonces, accounts := w.acme.accounts } }
  others : ∀ b, b ∉ c → w.acme.accounts.get? b = w₀.acme.accounts.get? b

/-- What a download of a foreign certificate keeps of two databases that started as `w₀` and
`w₀'`. -/
structure Apart (c : Option Nat) (certID : Nat) (w₀ w₀' w w' : World) : Prop where
  same : SameFor c w w'
  left : Foreign c certID w
  right : Foreign c certID w'
  effect : StoreEffect c w₀ w
  effect' : StoreEffect c w₀' w'

section

variable [Go.Runtime] {c : Option Nat} {certID : Nat} {w₀ w₀' w w' : World}

/-! ## The statements of a download -/

/-- A statement over the ACME tables that answers and leaves alike in both databases. -/
theorem lockstep_acme {s : AcmeStmt} {R : s.Res → World → World → Prop}
    (hJ : Apart c certID w₀ w₀' w w')
    (h : ∀ e, (w.acme.exec e w.ca.certificates s).1 = (w'.acme.exec e w'.ca.certificates s).1 ∧
      Apart c certID w₀ w₀' { w with acme := (w.acme.exec e w.ca.certificates s).2 }
        { w' with acme := (w'.acme.exec e w'.ca.certificates s).2 } ∧
      ∀ x, (w.acme.exec e w.ca.certificates s).1 = .ok x →
        R x { w with acme := (w.acme.exec e w.ca.certificates s).2 }
          { w' with acme := (w'.acme.exec e w'.ca.certificates s).2 }) :
    (acme s).Lockstep exec (Alike R (Apart c certID w₀ w₀')) w (acme s) w' := by
  refine .ask ?_ ?_
  · intro e
    by_cases hnow : 0 < e.now <;> simp [exec, hnow]
  · intro e x v x' v' hx hx'
    obtain ⟨_, rfl, rfl⟩ := exec_acme hx
    obtain ⟨_, rfl, rfl⟩ := exec_acme hx'
    obtain ⟨hans, hafter, hR⟩ := h e
    refine .pure ?_
    cases e.fault with
    | none =>
      show Alike R _ (w.acme.exec e w.ca.certificates s).1 _
        (w'.acme.exec e w'.ca.certificates s).1 _
      rw [← hans]
      cases hdone : (w.acme.exec e w.ca.certificates s).1 with
      | ok a => exact ⟨rfl, hR a hdone⟩
      | error err => exact ⟨rfl, hafter⟩
    | lost text => exact ⟨rfl, hJ⟩
    | late text => exact ⟨rfl, hafter⟩

/-- Reading the clock. -/
theorem lockstep_now {ε : Type} {J : World → World → Prop} (hJ : J w w') :
    (now : Handler ε Go.Time).Lockstep exec (Alike (fun _ => J) J) w now w' := by
  refine .ask ?_ ?_
  · intro e
    by_cases hnow : 0 < e.now <;> simp [exec, hostExec, hnow]
  · intro e x v x' v' hx hx'
    obtain ⟨_, hx⟩ := exec_host hx
    obtain ⟨_, hx'⟩ := exec_host hx'
    cases hx
    cases hx'
    exact .pure ⟨rfl, hJ⟩

omit [Go.Runtime] in
/-- A change to the nonces is allowed. -/
theorem StoreEffect.consume (h : StoreEffect c w₀ w) (nonces : List AcmeNonce) :
    StoreEffect c w₀ { w with acme := { w.acme with nonces } } := by
  refine ⟨?_, h.others⟩
  conv_lhs => rw [h.rest]

omit [Go.Runtime] in
/-- The row of an account after an update of the row of account `a`. -/
theorem get?_updateAccounts (v : World) (a b : Nat) (f : AcmeAccount → AcmeAccount)
    (hf : ∀ r, (f r).id = r.id) : (v.acme.updateAccounts a f hf).accounts.get? b =
      (v.acme.accounts.get? b).map fun r => if a = b then f r else r := by
  refine (Sql.Table.get?_update _ _ _ hf b).trans ?_
  cases hr : v.acme.accounts.get? b with
  | none => rfl
  | some r =>
    have hid : r.id = b := Sql.Table.key_of_get? hr
    simp only [Option.map_some, hid, beq_iff_eq, Eq.comm (a := b)]

omit [Go.Runtime] in
/-- A change to the caller's row is allowed. -/
theorem StoreEffect.touch {a : Nat} (h : StoreEffect (some a) w₀ w) (f : AcmeAccount → AcmeAccount)
    (hf : ∀ r, (f r).id = r.id) :
    StoreEffect (some a) w₀ { w with acme := w.acme.updateAccounts a f hf } := by
  refine ⟨?_, ?_⟩
  · conv_lhs => rw [h.rest]
    rfl
  · intro b hb
    have hab : a ≠ b := fun hab => hb (by rw [hab]; rfl)
    show (w.acme.updateAccounts a f hf).accounts.get? b = _
    rw [get?_updateAccounts, ← h.others b hb]
    simp only [if_neg hab, Option.map_id']

omit [Go.Runtime] in
/-- A change to the nonces alone, the same on both sides. -/
theorem Apart.consume (h : Apart c certID w₀ w₀' w w') (nonces : List AcmeNonce) :
    Apart c certID w₀ w₀' { w with acme := { w.acme with nonces } }
      { w' with acme := { w'.acme with nonces } } :=
  ⟨⟨rfl, h.same.account, h.same.credential, h.same.orders, h.same.authorizations,
    h.same.challenges, h.same.certificates⟩, h.left, h.right, h.effect.consume nonces,
    h.effect'.consume nonces⟩

omit [Go.Runtime] in
/-- A change to the caller's account that keeps its credential, the same on both sides. -/
theorem Apart.touch {a : Nat} (h : Apart (some a) certID w₀ w₀' w w')
    (f : AcmeAccount → AcmeAccount) (hf : ∀ r, (f r).id = r.id)
    (heab : ∀ r, (f r).eabID = r.eabID) :
    Apart (some a) certID w₀ w₀' { w with acme := w.acme.updateAccounts a f hf }
      { w' with acme := w'.acme.updateAccounts a f hf } := by
  have hget (v : World) : (v.acme.updateAccounts a f hf).accounts.get? a =
      (v.acme.accounts.get? a).map f := by
    rw [get?_updateAccounts]
    simp only [if_true]
  refine ⟨⟨h.same.nonces, ?_, ?_, h.same.orders, h.same.authorizations, h.same.challenges,
    h.same.certificates⟩, h.left, h.right, h.effect.touch f hf, h.effect'.touch f hf⟩
  · intro b hb
    cases hb
    rw [hget, hget, h.same.account a rfl]
  · intro b hb r hr
    cases hb
    rw [hget] at hr
    obtain ⟨r', hr', rfl⟩ := Option.map_eq_some_iff.mp hr
    rw [heab]
    exact h.same.credential a rfl r' hr'

theorem consumeNonce_lockstep {ε : Type} (n : String) (hJ : Apart c certID w₀ w₀' w w') :
    (Acme.consumeNonce n : Handler ε Bool).Lockstep exec
      (Alike (fun _ => Apart c certID w₀ w₀') (Apart c certID w₀ w₀')) w
      (Acme.consumeNonce n) w' := by
  unfold Acme.consumeNonce
  by_cases hn : n = ""
  · rw [if_pos hn]
    exact lockstep_pure hJ
  · rw [if_neg hn]
    refine (lockstep_now hJ).bind ?_ fun _ _ _ h => ⟨rfl, h⟩
    intro t v v' hv
    refine Lockstep.bind (R := fun _ => Apart c certID w₀ w₀') (J := Apart c certID w₀ w₀') ?_ ?_
      fun _ _ _ h => ⟨rfl, h⟩
    · refine Lockstep.mapResult (R := fun _ => Apart c certID w₀ w₀')
        (J := Apart c certID w₀ w₀') ?_ (fun _ _ _ h => ⟨rfl, h⟩) fun _ _ _ h => ⟨rfl, h⟩
      refine Lockstep.mapResult (R := fun _ => Apart c certID w₀ w₀')
        (J := Apart c certID w₀ w₀') ?_ (fun _ _ _ h => ⟨rfl, h⟩) fun _ _ _ h => ⟨rfl, h⟩
      refine lockstep_acme (s := .consumeAcmeNonce n t) hv ?_
      intro e
      simp only [AcmeTables.exec, hv.same.nonces]
      exact ⟨trivial, hv.consume _, fun _ _ => hv.consume _⟩
    · intro r u u' hu
      exact lockstep_pure hu

theorem checkNonce_lockstep (j : Acme.ParsedJWS) (hJ : Apart c certID w₀ w₀' w w') :
    (Acme.checkNonce j).Lockstep exec
      (Alike (fun _ => Apart c certID w₀ w₀') (Apart c certID w₀ w₀')) w
      (Acme.checkNonce j) w' := by
  refine (consumeNonce_lockstep j.nonce hJ).bind ?_ fun _ _ _ h => ⟨rfl, h⟩
  intro r v v' hv
  exact lockstep_failIf hv fun _ => hv

/-- The lookup of the caller's account finds the same row in both databases. -/
theorem getAcmeAccount_lockstep {a : Nat} (hJ : Apart (some a) certID w₀ w₀' w w') :
    (getAcmeAccount a).Lockstep exec
      (Alike (fun r v v' => r.id = a ∧ Apart (some a) certID w₀ w₀' v v')
        (Apart (some a) certID w₀ w₀')) w (getAcmeAccount a) w' := by
  refine Lockstep.mapResult (R := fun found v v' => (∀ r, found = some r → r.id = a) ∧
    Apart (some a) certID w₀ w₀' v v') (J := Apart (some a) certID w₀ w₀') ?_ ?_
    fun _ _ _ h => ⟨rfl, h⟩
  · refine lockstep_acme (s := .selectAcmeAccount a) hJ ?_
    intro e
    simp only [AcmeTables.exec, hJ.same.account a rfl]
    refine ⟨trivial, hJ, ?_⟩
    intro found hfound
    cases hfound
    exact ⟨fun r hr => Sql.Table.key_of_get? hr, hJ⟩
  · intro found v v' h
    cases found with
    | none => exact ⟨rfl, h.2⟩
    | some r => exact ⟨rfl, h.1 r rfl, h.2⟩

theorem resolveAccount_lockstep {kid : String} {a : Nat} (hkid : Acme.accountIDOf kid = some a)
    (hJ : Apart (some a) certID w₀ w₀' w w') :
    (Acme.resolveAccount kid).Lockstep exec
      (Alike (fun r v v' => r.id = a ∧ Apart (some a) certID w₀ w₀' v v')
        (Apart (some a) certID w₀ w₀')) w
      (Acme.resolveAccount kid) w' := by
  unfold Acme.resolveAccount
  rw [hkid]
  refine Lockstep.bind (R := fun r v v' => r.id = a ∧ Apart (some a) certID w₀ w₀' v v')
    (J := Apart (some a) certID w₀ w₀') ?_ ?_ fun _ _ _ h => ⟨rfl, h⟩
  · exact Lockstep.mapResult (getAcmeAccount_lockstep hJ) (fun _ _ _ h => ⟨rfl, h⟩)
      fun _ _ _ h => ⟨rfl, h⟩
  · intro r v v' hr
    refine Lockstep.bind (lockstep_failIf
      (R := fun _ v v' => r.id = a ∧ Apart (some a) certID w₀ w₀' v v') hr.2 fun _ => hr) ?_
      fun _ _ _ h => ⟨rfl, h⟩
    intro _ u u' hu
    exact lockstep_pure hu

/-- **Authentication** goes the same way in both databases, up to the caller's own account. -/
theorem authenticate_lockstep {body : Body} {url : String}
    (hJ : Apart (caller body) certID w₀ w₀' w w') :
    (Acme.authenticate body url).Lockstep exec
      (Alike (fun ar v v' => caller body = some ar.account.id ∧
        Apart (caller body) certID w₀ w₀' v v')
        (Apart (caller body) certID w₀ w₀')) w (Acme.authenticate body url) w' := by
  refine Lockstep.bind (R := fun j v v' => Acme.parseJWS body = .ok j ∧
    Apart (caller body) certID w₀ w₀' v v') (J := Apart (caller body) certID w₀ w₀')
    (lockstep_ofExcept hJ ?_) ?_ fun _ _ _ h => ⟨rfl, h⟩
  · intro j hj
    refine ⟨?_, hJ⟩
    cases hparse : Acme.parseJWS body with
    | ok j' =>
      rw [hparse] at hj
      cases hj
      rfl
    | error err =>
      rw [hparse] at hj
      cases hj
  · rintro j v v' ⟨hparse, hv⟩
    refine Lockstep.bind (lockstep_ofExcept (R := fun _ => Apart (caller body) certID w₀ w₀') hv
      fun _ _ => hv) ?_ fun _ _ _ h => ⟨rfl, h⟩
    intro _ v v' hv
    refine (checkNonce_lockstep j hv).bind ?_ fun _ _ _ h => ⟨rfl, h⟩
    intro _ v v' hv
    refine Lockstep.bind (lockstep_failIf (R := fun _ => Apart (caller body) certID w₀ w₀') hv
      fun _ => hv) ?_ fun _ _ _ h => ⟨rfl, h⟩
    intro _ v v' hv
    have hcaller : caller body = Acme.accountIDOf j.keyID := by
      simp only [caller, hparse, Except.toOption, Option.bind_some]
    cases hkid : Acme.accountIDOf j.keyID with
    | none =>
      refine Lockstep.bind (R := fun _ _ _ => False) (J := Apart (caller body) certID w₀ w₀') ?_
        (fun _ _ _ h => h.elim) fun _ _ _ h => ⟨rfl, h⟩
      unfold Acme.resolveAccount
      rw [hkid]
      exact lockstep_throw hv
    | some a =>
      rw [hcaller, hkid] at hv ⊢
      refine (resolveAccount_lockstep hkid hv).bind ?_ fun _ _ _ h => ⟨rfl, h⟩
      rintro r v v' ⟨hid, hv⟩
      refine Lockstep.bind (lockstep_ofExcept (R := fun _ => Apart (some a) certID w₀ w₀') hv
        fun _ _ => hv) ?_ fun _ _ _ h => ⟨rfl, h⟩
      intro _ v v' hv
      refine Lockstep.bind (R := fun _ => Apart (some a) certID w₀ w₀')
        (J := Apart (some a) certID w₀ w₀') ?_ ?_ fun _ _ _ h => ⟨rfl, h⟩
      · refine Lockstep.mapResult (R := fun _ => Apart (some a) certID w₀ w₀')
          (J := Apart (some a) certID w₀ w₀') ?_ (fun _ _ _ h => ⟨rfl, h⟩) fun _ _ _ h => ⟨rfl, h⟩
        rw [hid]
        show (acme (.touchAcmeAccountUsed a)).Lockstep exec _ v _ v'
        refine lockstep_acme (s := .touchAcmeAccountUsed a) hv ?_
        intro e
        exact ⟨rfl, hv.touch _ _ fun _ => rfl, fun _ _ => hv.touch _ _ fun _ => rfl⟩
      · intro _ v v' hv
        exact lockstep_pure ⟨by rw [hid], hv⟩

/-! ## The certificate -/

/-- What the lookup of an order found is no order of the account. -/
def NotOwn (a : Nat) (r : Except Go.Error AcmeOrder) : Prop := ∀ o, r = .ok o → o.accountID ≠ a

omit [Go.Runtime] in
/-- The order that produced a foreign certificate is no order of the caller. -/
theorem Foreign.latest_ne {a : Nat} (h : Foreign (some a) certID w) {o : AcmeOrder}
    (ho : latest (w.acme.orders.rows.filter (·.certificateID == some certID)) = some o) :
    o.accountID ≠ a := by
  have hmem := List.mem_of_getLast? ho
  rw [List.mem_filter, beq_iff_eq] at hmem
  exact fun hown => h a rfl o hmem.1 hown hmem.2

/-- The lookup of the order may end differently in the two databases, but never in an order of the
caller. -/
theorem getAcmeOrderByCertificate_lockstep {a : Nat}
    (hJ : Apart (some a) certID w₀ w₀' w w') :
    (getAcmeOrderByCertificate certID).Lockstep exec
      (fun r v r' v' => NotOwn a r ∧ NotOwn a r' ∧ Apart (some a) certID w₀ w₀' v v') w
      (getAcmeOrderByCertificate certID) w' := by
  have hown {v : World} {e : Env} (hv : Foreign (some a) certID v) :
      NotOwn a (row (e.fault.apply v.acme
        (v.acme.exec e v.ca.certificates (.selectAcmeOrderByCertificate certID))).1) := by
    intro o ho
    cases hf : e.fault with
    | none =>
      rw [hf] at ho
      cases hlatest : latest (v.acme.orders.rows.filter (·.certificateID == some certID)) with
      | none =>
        simp only [Fault.apply, AcmeTables.exec, hlatest, row] at ho
        cases ho
      | some o' =>
        simp only [Fault.apply, AcmeTables.exec, hlatest, row] at ho
        cases ho
        exact hv.latest_ne hlatest
    | lost text =>
      rw [hf] at ho
      cases ho
    | late text =>
      rw [hf] at ho
      cases ho
  have hsame (v : World) (e : Env) : (e.fault.apply v.acme
      (v.acme.exec e v.ca.certificates (.selectAcmeOrderByCertificate certID))).2 = v.acme := by
    cases e.fault <;> rfl
  refine .ask ?_ ?_
  · intro e
    by_cases hnow : 0 < e.now <;> simp [exec, hnow]
  · intro e x v x' v' hx hx'
    obtain ⟨_, rfl, rfl⟩ := exec_acme hx
    obtain ⟨_, rfl, rfl⟩ := exec_acme hx'
    rw [hsame, hsame]
    exact .pure ⟨hown hJ.left, hown hJ.right, hJ⟩

/-- **The lookup of the order** ends, in both databases, in what the caller is told of a certificate
that is not its own. -/
theorem order_lockstep {a : Nat} (hJ : Apart (some a) certID w₀ w₀' w w') {β : Type}
    (missing : Acme.Problem) (f : AcmeOrder → Handler Acme.Problem β) :
    ((do
      let order ← (getAcmeOrderByCertificate certID).mapError fun _ => missing
      Act.failIf (order.accountID ≠ a) missing
      f order) : Handler Acme.Problem β).Lockstep exec
      (Alike (fun _ _ _ => False) (Apart (some a) certID w₀ w₀')) w
      (do
        let order ← (getAcmeOrderByCertificate certID).mapError fun _ => missing
        Act.failIf (order.accountID ≠ a) missing
        f order) w' := by
  -- whatever was found, the call ends here
  have hstop (r : Except Go.Error AcmeOrder) (hr : NotOwn a r) :
      Interleave.Act.after (fun order : AcmeOrder => (do
        Act.failIf (order.accountID ≠ a) missing
        f order : Handler Acme.Problem β)) (r.mapError fun _ => missing) =
        .pure (.error missing) := by
    cases r with
    | error e => rfl
    | ok o =>
      show ExceptT.run (Act.failIf (o.accountID ≠ a) missing >>= fun _ => f o) = _
      rw [Act.failIf, if_pos (hr o rfl)]
      rfl
  let lookup : Handler Acme.Problem AcmeOrder :=
    (getAcmeOrderByCertificate certID).mapError fun _ => missing
  have hlookup : lookup.run.Lockstep exec
      (fun r v r' v' => ∃ q q', r = q.mapError (fun _ => missing) ∧
        r' = q'.mapError (fun _ => missing) ∧ NotOwn a q ∧ NotOwn a q' ∧
        Apart (some a) certID w₀ w₀' v v') w lookup.run w' := by
    refine Prog.Lockstep.bind (getAcmeOrderByCertificate_lockstep hJ) ?_
    intro q v q' v' h
    exact .pure ⟨q, q', rfl, rfl, h⟩
  unfold Lockstep
  rw [Interleave.Act.run_bind]
  refine Prog.Lockstep.bind hlookup ?_
  intro r v r' v' h
  obtain ⟨q, q', rfl, rfl, hq, hq', hv⟩ := h
  rw [hstop q hq, hstop q' hq']
  exact .pure ⟨rfl, hv⟩

theorem getCertificatePEM_lockstep {s : Acme.Service} {body : Body}
    (hJ : Apart (caller body) certID w₀ w₀' w w') :
    (s.getCertificatePEM certID body).Lockstep exec
      (Alike (fun _ _ _ => False) (Apart (caller body) certID w₀ w₀')) w
      (s.getCertificatePEM certID body) w' := by
  refine (authenticate_lockstep hJ).bind ?_ fun _ _ _ h => ⟨rfl, h⟩
  intro ar v v' h
  obtain ⟨hcaller, hv⟩ := h
  refine Lockstep.bind (lockstep_failIf
    (R := fun _ => Apart (caller body) certID w₀ w₀') hv fun _ => hv) ?_ fun _ _ _ h => ⟨rfl, h⟩
  intro _ v v' hv
  rw [hcaller] at hv ⊢
  exact order_lockstep hv _ _

omit [Go.Runtime] in
/-- A call that has not begun. -/
theorem Apart.begin (hsame : SameFor c w w') (hleft : Foreign c certID w)
    (hright : Foreign c certID w') : Apart c certID w w' w w' :=
  ⟨hsame, hleft, hright, ⟨rfl, fun _ _ => rfl⟩, ⟨rfl, fun _ _ => rfl⟩⟩

/-- A download from a database, after some number of its statements. -/
def download (s : Acme.Service) (certID : Nat) (body : Body) (w : World) (es : List Env) :
    Pool sig (Except Acme.Problem (List X509)) World :=
  (Pool.init w [(s.getCertificatePEM certID body).run]).run exec (Pool.solo es)

/-- **A download does not reveal other tenants**: two databases that agree on the caller's account,
on its credential, on the nonces and on everything reachable from its orders answer a request for a
certificate that none of its orders produced alike. After every number of moves the two calls have
asked for the same statements, and they end together, in the same error; the databases agree as
before then, and nothing of them but the nonces and the caller's row has changed. -/
theorem getCertificatePEM_reveals_nothing (s : Acme.Service) (certID : Nat) (body : Body)
    (w w' : World) (hsame : SameFor (caller body) w w') (hleft : Foreign (caller body) certID w)
    (hright : Foreign (caller body) certID w') (es : List Env) :
    let σ := download s certID body w es
    let σ' := download s certID body w' es
    asked σ.history = asked σ'.history ∧
      (∀ r, σ.threads = [.pure r] ↔ σ'.threads = [.pure r]) ∧
      ∀ r, σ.threads = [.pure r] → (∃ e, r = .error e) ∧
        SameFor (caller body) σ.world σ'.world ∧ StoreEffect (caller body) w σ.world ∧
        StoreEffect (caller body) w' σ'.world := by
  intro σ σ'
  obtain ⟨q, q', hq, hq', hasked, hlock⟩ := Prog.Lockstep.run
    (getCertificatePEM_lockstep (s := s) (Apart.begin hsame hleft hright)) es
  change σ.threads = [q] at hq
  change σ'.threads = [q'] at hq'
  change q.Lockstep exec _ σ.world q' σ'.world at hlock
  refine ⟨hasked, ?_⟩
  rw [hq, hq']
  generalize σ.world = u at hlock ⊢
  generalize σ'.world = u' at hlock ⊢
  cases hlock with
  | ask _ _ =>
    refine ⟨fun r => ⟨fun h => ?_, fun h => ?_⟩, fun r h => ?_⟩ <;> cases h
  | pure hpost =>
    rename_i r r'
    cases r with
    | ok x =>
      cases r' with
      | ok x' => exact hpost.2.elim
      | error e' => exact hpost.elim
    | error e =>
      cases r' with
      | ok x => exact hpost.elim
      | error e' =>
        obtain ⟨rfl, hend⟩ := hpost
        refine ⟨fun r => Iff.rfl, fun r hr => ?_⟩
        cases hr
        exact ⟨⟨e, rfl⟩, hend.same, hend.effect, hend.effect'⟩

end

/-! ### Two installations -/

/-- The small installation, where another account ordered the certificate 5. -/
def otherTenant : World :=
  { Samples.orderInstallation ["n1"] with
    acme := { (Samples.orderInstallation ["n1"]).acme with
      orders := (Samples.orderInstallation ["n1"]).acme.orders.insert (fun id =>
        { Samples.order with id, accountID := 2, status := .valid, certificateID := some 5 })
        fun _ => rfl } }

/-- A request of account 1 for the certificate 5. -/
def foreignRequest : Body :=
  Samples.accountRequest 1 "n1" (Samples.replica.certURL 5) Samples.noPayload

/-- Whether somebody else has the certificate 5 or nobody does, account 1 is told the same. -/
theorem otherTenant_unseen :
    asked (@download Go.asciiRuntime Samples.replica 5 foreignRequest
      (Samples.orderInstallation ["n1"]) (List.replicate 16 { now := 100 })).history =
    asked (@download Go.asciiRuntime Samples.replica 5 foreignRequest otherTenant
      (List.replicate 16 { now := 100 })).history := by
  let _ := Go.asciiRuntime
  have hcaller : caller foreignRequest = some 1 := by decide +kernel
  have hrows : (Samples.orderInstallation ["n1"]).acme.orders.rows = [Samples.order] := rfl
  have hrows' : otherTenant.acme.orders.rows = [Samples.order,
    { Samples.order with
      id := 2, accountID := 2, status := .valid, certificateID := some 5 }] := rfl
  refine (getCertificatePEM_reveals_nothing Samples.replica 5 _ _ _ ?_ ?_ ?_ _).1
  · rw [hcaller]
    refine ⟨rfl, fun _ _ => rfl, fun _ _ _ _ => rfl, ?_, fun _ _ _ _ _ _ _ => Iff.rfl,
      fun _ _ _ _ _ _ _ _ _ _ => Iff.rfl, fun _ _ _ _ _ _ _ => rfl⟩
    intro a ha o ho
    cases ha
    rw [hrows, hrows', List.mem_cons, List.mem_cons, List.mem_singleton]
    refine ⟨fun h => .inl (h.resolve_right List.not_mem_nil), ?_⟩
    intro h
    refine .inl (h.resolve_right ?_)
    rintro rfl
    exact absurd ho (by decide)
  · rw [hcaller]
    intro a _ o ho _
    rw [hrows, List.mem_singleton] at ho
    rw [ho]
    exact Option.some_ne_none 5 ∘ Eq.symm
  · rw [hcaller]
    intro a ha o ho hown
    cases ha
    rw [hrows', List.mem_cons, List.mem_singleton] at ho
    rcases ho with rfl | rfl
    · exact Option.some_ne_none 5 ∘ Eq.symm
    · exact absurd hown (by decide)

end Goca
