import Goca.Laws.Authentication
import Goca.Laws.Issuance

/-!
# What placing and finalizing an order rest on

`newOrder` stores an order after it checked each identifier against the credential of the account;
`PlacementWarrant` says so. `finalize` has four effects that matter to others: it claims the order,
asks for a signature, stores the certificate and links it to the order. `FinalizeWarrant` is what it
has checked before the first of them, and the other three come after its claim was answered with
one row.
-/

set_option autoImplicit false

namespace Goca

open Goca.Store
open Goca.Acme (Problem)
open Interleave (Act Prog Pool Trace)
open Interleave.Act

variable {may : Trace sig → Stmt → Prop} {α : Type} {q : Trace sig}

theorem orInternal_traced {x : Handler Go.Error α} {ok : Trace sig → α → Prop}
    (hx : x.Traced may ok q) : (Acme.orInternal x).Traced may ok q := Traced.mapError hx

/-! ## New orders -/

/-- What `newOrder` has checked when it stores an order: the account was valid, and the identifiers
passed the checks under the credential of the account. -/
structure PlacementWarrant [Go.Runtime] (n : AcmeOrder) (q : Trace sig) : Prop where
  ready : n.status = .ready
  allowed : ∃ kid a cred ids, Resolved kid a q ∧ n.accountID = a.id ∧
    Saw q (.acme (.selectEABCred a.eabID)) (.ok (some cred)) ∧
    Acme.checkIdentifiers cred ids = .ok n.identifiers

theorem activeCred_traced (s : Acme.Service) (a : AcmeAccount) (hread : AllowsReads may q) :
    (s.activeCred a).Traced may
      (fun q' cred => Saw q' (.acme (.selectEABCred a.eabID)) (.ok (some cred))) q := by
  have hget : (getEABCred a.eabID).Traced may _ q :=
    row_traced (hread.acme (.selectEABCred a.eabID) trivial)
  refine Traced.bind (orInternal_traced hget) fun q₁ cred hq₁ hcred => ?_
  refine traced_ite (fun _ => ?_) fun _ => traced_pure hcred
  exact ((hread.extend hq₁).traced (recordAudit_uses s.caSvc _ _ _ _ _)).bind
    fun _ _ _ _ => traced_throw

theorem createAcmeOrder_traced {n : AcmeOrder} (hread : AllowsReads may q)
    (h : may q (.acme (.insertAcmeOrder n))) :
    (createAcmeOrder n).Traced may (fun _ _ => True) q := by
  refine Traced.bind (acme_saw h) fun q₁ id hq₁ _ => ?_
  exact (hread.extend hq₁).traced ((acme_uses trivial).mapResult _)

theorem newOrder_traced [Go.Runtime] (s : Acme.Service) (body : Acme.Body)
    (hallow : Allows [.consumeNonce, .touchAccount, .insertAuthorization, .insertChallenge] may q)
    (hinsert : ∀ q' n, q <+: q' → PlacementWarrant n q' → may q' (.acme (.insertAcmeOrder n))) :
    (s.newOrder body).Traced may (fun _ _ => True) q := by
  refine (authenticate_traced body _ (hallow.mono (by decide))).bind fun q₁ ar hq₁ hauth => ?_
  obtain ⟨_, _, hauth⟩ := hauth
  refine traced_ofExcept_eq.bind fun q₂ req hq₂ _ => ?_
  refine traced_failIf_eq.bind fun q₃ _ hq₃ _ => ?_
  have hq₁₃ := hq₂.trans hq₃
  have hq₀₃ := hq₁.trans hq₁₃
  refine (activeCred_traced s ar.account (hallow.extend hq₀₃).reads).bind
    fun q₄ cred hq₄ hcred => ?_
  refine traced_ofExcept_eq.bind fun q₅ idents hq₅ ⟨_, hidents⟩ => ?_
  have hq₀₅ := (hq₀₃.trans hq₄).trans hq₅
  refine (now_saw (hallow.extend hq₀₅).now).bind fun q₆ t hq₆ _ => ?_
  refine traced_ofExcept_eq.bind fun q₇ notAfter hq₇ _ => ?_
  have hq₅₇ := hq₆.trans hq₇
  have hq₀₇ := hq₀₅.trans hq₅₇
  have hwarrant : PlacementWarrant {
      accountID := ar.account.id
      status := .ready
      identifiers := idents
      expiresAt := t + Acme.orderTTL
      notAfter := notAfter } q₇ :=
    ⟨rfl, ar.jws.keyID, ar.account, cred, req.identifiers,
      hauth.account.extend (hq₁₃.trans ((hq₄.trans hq₅).trans hq₅₇)), rfl,
      hcred.extend (hq₅.trans hq₅₇), hidents⟩
  refine Traced.bind (orInternal_traced (createAcmeOrder_traced (hallow.extend hq₀₇).reads
    (hinsert q₇ _ hq₀₇ hwarrant))) fun q₈ order hq₈ _ => ?_
  have hallow₈ := hallow.extend (hq₀₇.trans hq₈)
  refine (hallow₈.traced (authorizeIdentifiers_uses (by decide) (by decide) _ _ _)).bind
    fun q₉ _ hq₉ _ => ?_
  refine ((hallow₈.extend hq₉).traced (orInternal_uses (orderObjectFor_uses s order))).bind
    fun q₁₀ obj hq₁₀ _ => ?_
  exact ((hallow₈.extend (hq₉.trans hq₁₀)).traced (recordAudit_uses s.caSvc _ _ _ _ _)).bind
    fun _ _ _ _ => traced_pure trivial

/-! ## Finalization -/

/-- What `finalize` has checked of an order and its CSR when it claims the order. -/
structure FinalizeWarrant [Go.Runtime] (orderID : Nat) (order : AcmeOrder) (csr : Pki.CSR)
    (cn : String) (q : Trace sig) : Prop where
  found : Saw q (.acme (.selectAcmeOrder orderID)) (.ok (some order))
  checked : Acme.checkCSR order csr = .ok cn

theorem FinalizeWarrant.extend [Go.Runtime] {orderID : Nat} {order : AcmeOrder} {csr : Pki.CSR}
    {cn : String} {q' : Trace sig} (h : FinalizeWarrant orderID order csr cn q) (hq : q <+: q') :
    FinalizeWarrant orderID order csr cn q' := ⟨h.found.extend hq, h.checked⟩

/-- The credential of an order: that of the account the order belongs to, as the call read both. -/
def Holds (order : AcmeOrder) (cred : EABCred) (q : Trace sig) : Prop :=
  ∃ id a, Saw q (.acme (.selectAcmeAccount id)) (.ok (some a)) ∧ order.accountID = a.id ∧
    Saw q (.acme (.selectEABCred a.eabID)) (.ok (some cred))

theorem Holds.extend {order : AcmeOrder} {cred : EABCred} {q' : Trace sig} (h : Holds order cred q)
    (hq : q <+: q') : Holds order cred q' := by
  obtain ⟨id, a, ha, hown, hcred⟩ := h
  exact ⟨id, a, ha.extend hq, hown, hcred.extend hq⟩

/-- A call has claimed an order: its claim was answered with one row. -/
def Claimed (orderID : Nat) (q : Trace sig) : Prop :=
  Saw q (.acme (.claimAcmeOrderForFinalize orderID)) (.ok (1 : Nat))

theorem claim_traced (orderID : Nat)
    (h : may q (.acme (.claimAcmeOrderForFinalize orderID))) :
    (claimAcmeOrderForFinalize orderID).Traced may
      (fun q' claimed => claimed = true → Claimed orderID q') q := by
  refine (acme_saw h).mapResult fun q' r claimed _ hr hclaimed htrue => ?_
  subst htrue
  exact hr _ (affectedOne_true hclaimed)

theorem ownOrder_traced (ar : Acme.AuthedRequest) (orderID : Nat) (hread : AllowsReads may q) :
    (Acme.ownOrder ar orderID).Traced may (fun q' order =>
      Saw q' (.acme (.selectAcmeOrder orderID)) (.ok (some order)) ∧
        order.accountID = ar.account.id) q := by
  have hget : (getAcmeOrder orderID).Traced may _ q :=
    row_traced (acme_saw (s := .selectAcmeOrder orderID) (hread q _ List.prefix_rfl trivial))
  refine Traced.bind (Traced.mapError hget) fun q₁ order hq₁ horder => ?_
  refine traced_failIf_eq.bind fun q₂ _ hq₂ ⟨_, hown⟩ => traced_pure ⟨horder.extend hq₂, ?_⟩
  exact not_not.mp hown

variable [Go.Runtime]

/-- **Finalize**: the claim rests on the checks of the order, and signature, stored row and link on
the claim. -/
theorem finalize_traced (s : Acme.Service) (orderID : Nat) (body : Acme.Body)
    (hallow : Allows [.consumeNonce, .touchAccount, .setOrderError] may q)
    (hclaim : ∀ q' order csr cn, q <+: q' → FinalizeWarrant orderID order csr cn q' →
      may q' (.acme (.claimAcmeOrderForFinalize order.id)))
    (hsign : ∀ q' order csr cn cred t row p st, q <+: q' →
      FinalizeWarrant orderID order csr cn q' → Claimed order.id q' → Holds order cred q' →
      Saw q' (.host .now) t →
      IssueWarrant s.caSvc (Acme.issueInput cred csr cn (Acme.issueDays order cred t)) row p q' →
      SignWarrant p q' st → may q' st)
    (hinsert : ∀ q' order csr cn cred days c, q <+: q' →
      FinalizeWarrant orderID order csr cn q' → Claimed order.id q' → Holds order cred q' →
      RecordWarrant s.caSvc (Acme.issueInput cred csr cn days) q' c →
      may q' (.ca (.insertCertificate c)))
    (hlink : ∀ q' order csr cn n c, q <+: q' → FinalizeWarrant orderID order csr cn q' →
      Claimed order.id q' → Stored q' n c →
      may q' (.acme (.setAcmeOrderCertificate order.id c.id))) :
    (s.finalize orderID body).Traced may (fun _ _ => True) q := by
  have hread := hallow.reads
  have hfail {q' : Trace sig} (hq' : q <+: q') (id : Nat) (p : Problem) :
      (Acme.failOrder id p : Handler Problem Acme.OrderObject).Traced may (fun _ _ => True) q' :=
    (hallow.extend hq').traced (failOrder_uses (by decide) id p)
  refine (authenticate_traced body _ (hallow.mono (by decide))).bind fun q₁ ar hq₁ hauth => ?_
  obtain ⟨_, _, hauth⟩ := hauth
  obtain ⟨⟨accountID, _, haccount⟩, _⟩ := hauth.account
  refine (ownOrder_traced ar orderID (hread.extend hq₁)).bind
    fun q₂ order hq₂ ⟨hfound, hown⟩ => ?_
  refine traced_ofExcept_eq.bind fun q₃ _ hq₃ _ => ?_
  have hq₀₃ := (hq₁.trans hq₂).trans hq₃
  refine (now_saw (hread.extend hq₀₃).now).bind fun q₄ t hq₄ _ => ?_
  refine traced_ite (fun _ => hfail (hq₀₃.trans hq₄) _ _) fun _ => ?_
  refine traced_ofExcept_eq.bind fun q₅ csr hq₅ _ => ?_
  have hq₀₅ := (hq₀₃.trans hq₄).trans hq₅
  cases hcheck : Acme.checkCSR order csr with
  | error p => exact hfail hq₀₅ order.id p
  | ok cn =>
    have hwarrant : FinalizeWarrant orderID order csr cn q₅ :=
      ⟨hfound.extend ((hq₃.trans hq₄).trans hq₅), hcheck⟩
    refine (activeCred_traced s ar.account (hread.extend hq₀₅)).bind fun q₆ cred hq₆ hcred => ?_
    have hq₀₆ := hq₀₅.trans hq₆
    have hholds : Holds order cred q₆ := ⟨accountID, ar.account,
      haccount.extend (((hq₂.trans hq₃).trans hq₄).trans (hq₅.trans hq₆)), hown, hcred⟩
    refine (orInternal_traced (claim_traced order.id
      (hclaim q₆ order csr cn hq₀₆ (hwarrant.extend hq₆)))).bind fun q₇ claimed hq₇ hclaimed => ?_
    refine traced_failIf_eq.bind fun q₈ _ hq₈ ⟨_, htrue⟩ => ?_
    have hclaimed₈ : Claimed order.id q₈ := (hclaimed (by simpa using htrue)).extend hq₈
    have hq₀₈ := (hq₀₆.trans hq₇).trans hq₈
    have hwarrant₈ := hwarrant.extend ((hq₆.trans hq₇).trans hq₈)
    -- From here on the call issues for the order it has claimed.
    refine (now_saw (hread.extend hq₀₈).now).bind fun q₉ t' hq₉ ht' => ?_
    have hq₀₉ := hq₀₈.trans hq₉
    have hissue := issue_traced (q := q₉) s.caSvc
      (Acme.issueInput cred csr cn (Acme.issueDays order cred t')) (hread.extend hq₀₉)
      (fun q' row p st hq' => hsign q' order csr cn cred _ row p st (hq₀₉.trans hq')
        (hwarrant₈.extend (hq₉.trans hq')) (hclaimed₈.extend (hq₉.trans hq'))
        (hholds.extend ((hq₇.trans hq₈).trans (hq₉.trans hq'))) (ht'.extend hq'))
      (fun q' c hq' => hinsert q' order csr cn cred _ c (hq₀₉.trans hq')
        (hwarrant₈.extend (hq₉.trans hq')) (hclaimed₈.extend (hq₉.trans hq'))
        (hholds.extend ((hq₇.trans hq₈).trans (hq₉.trans hq'))))
    refine Traced.bind (Traced.attempt hissue fun q' r _ hr => hr) fun q₁₀ res hq₁₀ hres => ?_
    have hq₈₁₀ := hq₉.trans hq₁₀
    have hq₀₁₀ := hq₀₈.trans hq₈₁₀
    cases res with
    | error e => exact hfail hq₀₁₀ _ _
    | ok res =>
      obtain ⟨n, hstored⟩ := hres res rfl
      have hmay := hlink q₁₀ order csr cn n res.certificate hq₀₁₀ (hwarrant₈.extend hq₈₁₀)
        (hclaimed₈.extend hq₈₁₀) hstored
      have hset : (setAcmeOrderCertificate order.id res.certificate.id).Traced may
          (fun _ _ => True) q₁₀ := (acme_saw hmay).mono fun _ _ _ => trivial
      refine (orInternal_traced hset).bind fun q₁₁ _ hq₁₁ _ => ?_
      have hread₁₁ := hread.extend (hq₀₁₀.trans hq₁₁)
      refine (hread₁₁.traced (recordAudit_uses s.caSvc _ _ _ _ _)).bind fun q₁₂ _ hq₁₂ _ => ?_
      have hread₁₂ := hread₁₁.extend hq₁₂
      refine (hread₁₂.traced (orInternal_uses ((acme_uses trivial).mapResult _))).bind
        fun q₁₃ updated hq₁₃ _ => ?_
      exact (hread₁₂.extend hq₁₃).traced (orInternal_uses (orderObjectFor_uses s updated))

end Goca
