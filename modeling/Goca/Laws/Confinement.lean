import Mathlib.Data.List.Dedup
import Mathlib.Data.List.Perm.Subperm
import Goca.Laws.Identifiers
import Goca.Laws.Issued
import Goca.Laws.Orders
import Goca.Laws.Placement
import Goca.Laws.Promotion
import Goca.Laws.Reference

/-!
# What ACME may issue

A name comes a long way from a request for an order into a certificate. `NewOrder` normalizes it,
checks its syntax and the domains of the credential, and stores it; `Finalize` reads it back, from
another request and maybe on another replica, and compares it with the names of a CSR that is the
client's alone; `Issue` and `Sign` are general, they promote common names, parse free text and take
overrides, and they could make an authority.

`issuance_confined` says that nothing else comes out: whatever `Finalize` has signed bears the names
of its order, in upper or lower case, and nothing but these, and they were allowed when the order
was placed.
-/

set_option autoImplicit false

namespace Goca

open Goca.Acme (validDNSIdentifier domainAllowed)
open Goca.Pki (SignParams X509)
open Goca.Store
open Interleave (Act Pool Prog Trace own)
open Interleave.Act
open Sql (Table)

/-! ## Names that were checked -/

theorem visible_of_labelRune {c : Char} (h : Acme.labelRune c = true) :
    33 ≤ c.toNat ∧ c.toNat ≤ 126 := by
  simp only [Acme.labelRune, Bool.or_eq_true, Bool.and_eq_true, decide_eq_true_eq, beq_iff_eq,
    Char.le_def, UInt32.le_iff_toNat_le] at h
  change 33 ≤ c.val.toNat ∧ c.val.toNat ≤ 126
  rcases h with (⟨h₁, h₂⟩ | ⟨h₁, h₂⟩) | rfl
  · exact ⟨le_trans (by decide) h₁, le_trans h₂ (by decide)⟩
  · exact ⟨le_trans (by decide) h₁, le_trans h₂ (by decide)⟩
  · decide

/-- An accepted name is not empty, and it has no blanks. -/
theorem visible_of_identifier {v : String} (h : validDNSIdentifier v = .ok ()) :
    v ≠ "" ∧ ∀ c ∈ v.toList, 33 ≤ c.toNat ∧ c.toNat ≤ 126 := by
  unfold validDNSIdentifier at h
  split at h
  · cases h
  split at h
  · cases h
  dsimp only at h
  split at h
  · cases h
  split at h
  · cases h
  have hlabels := Acme.validLabels_iff.mp h
  have hrunes : ∀ c ∈ ((Go.cutPrefix v "*.").getD v).toList, 33 ≤ c.toNat ∧ c.toNat ≤ 126 := by
    intro c hc
    rw [← Acme.join_split] at hc
    rcases Pki.mem_intercalate hc with rfl | ⟨l, hl, hc⟩
    · decide
    · have hlabel := hlabels (.ofList l) (List.mem_map_of_mem hl)
      exact visible_of_labelRune
        ((Acme.validLabel_iff.mp hlabel).2.2.2 c (by rwa [String.toList_ofList]))
  cases hcut : Go.cutPrefix v "*." with
  | none =>
    rw [hcut] at hrunes hlabels
    refine ⟨?_, hrunes⟩
    rintro rfl
    exact (Acme.validLabel_iff.mp (hlabels "" (by decide))).1 rfl
  | some d =>
    obtain rfl := Go.eq_of_cutPrefix hcut
    rw [hcut] at hrunes
    refine ⟨?_, ?_⟩
    · intro hempty
      have hlist := congrArg String.toList hempty
      rw [String.toList_append] at hlist
      exact absurd (List.append_eq_nil_iff.mp hlist).1 (by decide)
    · intro c hc
      rw [String.toList_append] at hc
      rcases List.mem_append.mp hc with hc | hc
      · rcases List.mem_cons.mp hc with rfl | hc
        · decide
        · rw [List.mem_singleton.mp hc]
          decide
      · exact hrunes c hc

section Checked

variable [Go.Runtime]

/-- What `NewOrder` has checked of a name, under the domains of a credential. -/
structure AllowedName (cred : EABCred) (n : String) : Prop where
  syntactic : validDNSIdentifier n = .ok ()
  allowed : domainAllowed cred.allowedDomains n = true

theorem allowedName_of_checkIdentifier {cred : EABCred} {id out : AcmeIdentifier}
    (h : Acme.checkIdentifier cred id = .ok out) : AllowedName cred out.value := by
  unfold Acme.checkIdentifier at h
  dsimp only at h
  generalize (if Go.toLower (Go.trimSpace id.type) = "" then "dns"
    else Go.toLower (Go.trimSpace id.type)) = typ at h
  split at h
  · cases h
  split at h
  · cases h
  split at h
  · cases h
  next hvalid =>
  split at h
  · cases h
  next hallowed =>
  cases h
  exact ⟨hvalid, (Bool.not_eq_false _).mp hallowed⟩

/-- The identifiers of an order were accepted. -/
theorem allowedName_of_checkIdentifiers {cred : EABCred} {ids out : List AcmeIdentifier}
    (h : Acme.checkIdentifiers cred ids = .ok out) : ∀ id ∈ out, AllowedName cred id.value := by
  induction ids generalizing out with
  | nil =>
    cases h
    exact fun id hid => absurd hid List.not_mem_nil
  | cons id rest ih =>
    rw [Acme.checkIdentifiers] at h
    cases hone : Acme.checkIdentifier cred id with
    | error p =>
      rw [hone] at h
      cases h
    | ok checked =>
    cases hmore : Acme.checkIdentifiers cred rest with
    | error p =>
      rw [hone, hmore] at h
      cases h
    | ok more =>
    rw [hone, hmore] at h
    cases h
    intro i hi
    rcases List.mem_cons.mp hi with rfl | hi
    · exact allowedName_of_checkIdentifier hone
    · exact ih hmore i hi

end Checked

/-! ## What is signed -/

section Signed

variable [Go.Runtime]

/-- **Confined** to some names: a certificate bears them, in upper or lower case, and nothing
else, and it is no authority's. -/
structure Confined (names : List String) (c : X509) : Prop where
  dns : ∀ n, n ∈ c.sans.dns.map Go.toLower ↔ n ∈ names
  others : c.sans.ips = [] ∧ c.sans.emails = [] ∧ c.sans.uris = []
  subject : ∃ cn ∈ names, c.subject = { commonName := cn }
  leaf : c.isCA = false

omit [Go.Runtime] in
/-- Two lists stand for one set of names. -/
theorem mem_iff_of_sameStringSet {a b : List String} (h : Acme.sameStringSet a b = true) (n : String) :
    n ∈ b ↔ n ∈ a := by
  unfold Acme.sameStringSet at h
  obtain ⟨hlength, hall⟩ := Bool.and_eq_true_iff.mp h
  have hsub : a.dedup ⊆ b.dedup := by
    intro x hx
    exact List.contains_iff_mem.mp (List.all_eq_true.mp hall x hx)
  have hperm := ((List.nodup_dedup a).subperm hsub).perm_of_length_le (beq_iff_eq.mp hlength).ge
  rw [← List.mem_dedup, ← hperm.mem_iff, List.mem_dedup]

/-- What the check of a CSR says of its names and of the common name to issue with. -/
theorem names_of_checkCSR {o : AcmeOrder} {csr : Pki.CSR} {cn : String}
    (h : Acme.checkCSR o csr = .ok cn) (hne : Acme.AcmeOrder.names o ≠ []) :
    (csr.sans.ips = [] ∧ csr.sans.emails = [] ∧ csr.sans.uris = []) ∧
      (∀ n, n ∈ csr.sans.dns.map Go.toLower ↔ n ∈ Acme.AcmeOrder.names o) ∧
      cn ∈ Acme.AcmeOrder.names o := by
  unfold Acme.checkCSR at h
  split at h
  · cases h
  next hother =>
  dsimp only at h
  split at h
  · cases h
  next hsame =>
  simp only [not_or, ne_eq, not_not] at hother
  refine ⟨hother, mem_iff_of_sameStringSet ((Bool.not_eq_false _).mp hsame), ?_⟩
  split at h
  · cases h
  next hcn =>
  split at h
  · obtain rfl := Except.ok.inj h
    cases hnames : Acme.AcmeOrder.names o with
    | nil => exact absurd hnames hne
    | cons n rest => exact List.mem_cons_self
  next hsome =>
    obtain rfl := Except.ok.inj h
    exact not_not.mp fun hnot => hcn ⟨hsome, hnot⟩

/-- The subject of a name without blanks. -/
theorem pkix_of_name {cn : String} (h : ∀ c ∈ cn.toList, 33 ≤ c.toNat ∧ c.toNat ≤ 126) :
    ({ commonName := cn } : Pki.Subject).pkix = { commonName := cn } := by
  have hnone : Pki.attributeValues "" = [] := rfl
  have hcountry : Pki.attributeValues (Go.toUpper "") = [] := rfl
  unfold Pki.Subject.pkix
  rw [Go.trimSpace_eq_self fun c hc => Go.isSpace_of_visible (h c hc), hnone, hcountry]

/-- **What `Finalize` signs** for an order whose names were accepted. -/
theorem confined_of_warrants {s : Ca.Service} {cred : EABCred} {order : AcmeOrder} {csr : Pki.CSR}
    {cn : String} {days : Int} {row : CA} {p : SignParams} {q : Trace sig} {tmpl : Pki.Template}
    {parent : Option X509} {pub : Pki.PublicKey} {priv : Pki.PrivateKey} {digest : String}
    {cert : X509} (hcheck : Acme.checkCSR order csr = .ok cn)
    (hne : Acme.AcmeOrder.names order ≠ [])
    (hnames : ∀ n ∈ Acme.AcmeOrder.names order, validDNSIdentifier n = .ok ())
    (hissue : IssueWarrant s (Acme.issueInput cred csr cn days) row p q)
    (hsign : SignWarrant p q (.host (.createCertificate tmpl parent pub priv)))
    (hcert : Pki.x509CreateCertificate tmpl parent pub priv digest = .ok cert) :
    Confined (Acme.AcmeOrder.names order) cert := by
  obtain ⟨hothers, hdns, hcn⟩ := names_of_checkCSR hcheck hne
  obtain ⟨hcnne, hvisible⟩ := visible_of_identifier (hnames cn hcn)
  obtain ⟨m, hm, hcsr⟩ := hissue.request rfl
  have hsame : csr = p.csr := by
    have h := (suppliedRequest_eq_ok hm).1
    rw [← hcsr] at h
    exact Pki.CsrText.csr.inj h
  have hsubject : p.subject = { commonName := cn } := by
    have hoverride : p.subjectOverride = some { commonName := cn } := by
      rw [hissue.subject]
      refine if_pos ⟨rfl, ?_⟩
      show Go.trimSpace cn ≠ ""
      rw [Go.trimSpace_eq_self fun c hc => Go.isSpace_of_visible (hvisible c hc)]
      exact hcnne
    unfold SignParams.subject
    rw [hoverride]
    exact pkix_of_name hvisible
  have hsans : p.sans = csr.sans := by
    have hoverride : p.sanOverride = none := (Except.ok.inj hissue.sans).symm
    have hsome : csr.sans.empty ≠ true := by
      intro hempty
      have hnil := Pki.SANSet.eq_of_empty hempty
      have hmem := (hdns cn).mpr hcn
      rw [hnil] at hmem
      exact absurd hmem List.not_mem_nil
    unfold SignParams.sans
    rw [hoverride, Option.getD_none, ← hsame]
    exact if_neg fun h => hsome h.1
  have hprofile : p.profile ≠ .intermCA := fun h => nomatch hissue.subordinate h
  obtain ⟨serial, t, _, _, _, heq⟩ := hsign.signature
  cases heq
  obtain ⟨-, hcsubject, -, -, -, hca, hcsans, -⟩ := Pki.x509CreateCertificate_ok hcert
  rw [Pki.template_subject, hsubject] at hcsubject
  rw [Pki.template_sans, hsans] at hcsans
  refine ⟨?_, ?_, ⟨cn, hcn, hcsubject⟩, ?_⟩
  · rw [hcsans]
    exact hdns
  · rw [hcsans]
    exact hothers
  · rw [hca]
    unfold SignParams.template
    rw [if_neg hprofile]

end Signed

/-! ## What every request asks -/

section Asked

variable [Go.Runtime]

/-- An order is stored by a request for one, under its warrant. What a request that finalizes an
order signs rests on the checks of the order's CSR, and it stores only what was signed for it. -/
def CallConfines (c : Call) (q : Trace sig) : Stmt → Prop
  | .acme (.insertAcmeOrder n) =>
    ∃ body, c.request = .newOrder body ∧ PlacementWarrant n q ∧ n.identifiers ≠ []
  | .host (.createCertificate tmpl parent pub priv) => ∀ o body, c.request = .finalize o body →
    ∃ s order csr cn cred days row p, FinalizeWarrant o order csr cn q ∧
      IssueWarrant s (Acme.issueInput cred csr cn days) row p q ∧
      SignWarrant p q (.host (.createCertificate tmpl parent pub priv))
  | .ca (.insertCertificate n) => ∀ o body, c.request = .finalize o body →
    ∃ tmpl parent pub priv cert, n.certPEM = some cert ∧
      Saw q (.host (.createCertificate tmpl parent pub priv)) (.ok cert)
  | _ => True

theorem callConfines_of_within {c : Call} {ks : List Effect} (h₁ : .insertOrder ∉ ks)
    (h₂ : (∀ o body, c.request ≠ .finalize o body) ∨
      (.signCertificate ∉ ks ∧ .insertCertificate ∉ ks)) {q : Trace sig} {s : Stmt}
    (hs : Within ks s) : CallConfines c q s := by
  unfold CallConfines
  split
  · exact absurd hs h₁
  · rcases h₂ with h₂ | ⟨h₂, -⟩
    · exact fun o body h => absurd h (h₂ o body)
    · exact absurd hs h₂
  · rcases h₂ with h₂ | ⟨-, h₂⟩
    · exact fun o body h => absurd h (h₂ o body)
    · exact absurd hs h₂
  · trivial

/-- **Every request is confined.** -/
theorem serve_confines (c : Call) : c.serve.Traced (CallConfines c) (fun _ _ => True) [] := by
  obtain ⟨acme, request⟩ := c
  have hother (horder : Effect.insertOrder ∉ request.effects)
      (hfinal : ∀ o body, request ≠ .finalize o body) :
      (Call.serve ⟨acme, request⟩).Traced (CallConfines ⟨acme, request⟩) (fun _ _ => True) [] :=
    (serve_uses ⟨acme, request⟩).traced.mono
      (fun q s hs => callConfines_of_within horder (.inl hfinal) hs) fun _ _ _ => trivial
  cases request with
  | finalize o body =>
    refine replying_traced (finalize_traced acme o body ?_ ?_ ?_ ?_ ?_)
    · exact fun q s _ hs => callConfines_of_within (by decide) (.inr ⟨by decide, by decide⟩) hs
    · exact fun _ _ _ _ _ _ => trivial
    · intro q order csr cn cred t row p st _ hwarrant _ _ _ hissue hsign
      obtain ⟨serial, t', _, _, _, rfl⟩ := id hsign.signature
      rintro _ _ ⟨⟩
      exact ⟨_, order, csr, cn, cred, _, row, p, hwarrant, hissue, hsign⟩
    · intro q order csr cn cred days n _ _ _ _ hrecord
      rintro _ _ ⟨⟩
      obtain ⟨row, p, q₁, st, cert, -, -, -, ⟨tmpl, parent, pub, priv, rfl, hsaw⟩, -, -, hpem, -⟩ :=
        hrecord
      exact ⟨tmpl, parent, pub, priv, cert, hpem, hsaw⟩
    · exact fun _ _ _ _ _ _ _ _ _ _ => trivial
  | newOrder body =>
    have hplaced : (acme.newOrder body).Traced
        (fun q s => ∀ n, s = Stmt.acme (.insertAcmeOrder n) → PlacementWarrant n q)
        (fun _ _ => True) [] := by
      refine newOrder_traced acme body (fun q s _ hs => ?_) ?_
      · rintro n rfl
        simp [Within, Stmt.effect?] at hs
      · rintro q n _ hwarrant _ ⟨⟩
        exact hwarrant
    refine (Prog.Traced.and (replying_traced hplaced)
      (serve_places ⟨acme, .newOrder body⟩)).mono ?_ fun _ _ _ => trivial
    rintro q s ⟨hwarrant, hplaces⟩
    unfold CallConfines
    split
    · exact ⟨body, rfl, hwarrant _ rfl, hplaces.2⟩
    · rintro _ _ ⟨⟩
    · rintro _ _ ⟨⟩
    · trivial
  | _ => exact hother (by simp [Request.effects]) (by rintro _ _ ⟨⟩)

end Asked

/-! ## Runs -/

section Run

variable [Go.Runtime] (w : World) (ts : List Task) (moves : Pool.Schedule Env)

/-- Order `o`, as it is before move `m`, was placed under the credential of its account: a request
read the credential, and then it stored the order with these identifiers. -/
structure PlacedUnder (m o : Nat) (order : AcmeOrder) (cred : EABCred) : Prop where
  owner : ∃ a, (tasksUpto w ts moves m).world.acme.accounts.get? order.accountID = some a ∧
    a.eabID = cred.id
  placed : ∃ t replica body j k e e' n x, ts[t]? = some (.call ⟨replica, .newOrder body⟩) ∧
    j < k ∧ k < m ∧ Pool.AskedAt adminExec (tasks w ts) moves j t e
      (.inl (.acme (.selectEABCred cred.id))) (.ok (some cred)) ∧
    Pool.AskedAt adminExec (tasks w ts) moves k t e' (.inl (.acme (.insertAcmeOrder n))) x ∧
    (tasksUpto w ts moves k).world.acme.orders.get? o = none ∧ n.identifiers = order.identifiers

/-- What holds of the certificates that are issued for orders. -/
structure IssuanceConfined : Prop where
  /-- What a request that finalizes an order has signed is confined to the names of the order, and
  these were accepted under the credential that the order was placed under. -/
  signed : ∀ t replica o body m e tmpl parent pub priv cert,
    ts[t]? = some (.call ⟨replica, .finalize o body⟩) →
    Pool.AskedAt adminExec (tasks w ts) moves m t e
      (.inl (.host (.createCertificate tmpl parent pub priv))) (.ok cert) →
    ∃ order cred, (tasksUpto w ts moves m).world.acme.orders.get? o = some order ∧
      Confined (Acme.AcmeOrder.names order) cert ∧ PlacedUnder w ts moves m o order cred ∧
      ∀ n ∈ Acme.AcmeOrder.names order, AllowedName cred n
  /-- It stores only what it has signed. -/
  stored : ∀ t replica o body m e n x, ts[t]? = some (.call ⟨replica, .finalize o body⟩) →
    Pool.AskedAt adminExec (tasks w ts) moves m t e (.inl (.ca (.insertCertificate n))) x →
    ∃ j < m, ∃ e' tmpl parent pub priv cert, n.certPEM = some cert ∧
      Pool.AskedAt adminExec (tasks w ts) moves j t e'
        (.inl (.host (.createCertificate tmpl parent pub priv))) (.ok cert)

variable {w ts moves}

/-- An order keeps the names and the account it was placed with. -/
def OrdersKept (w w' : World) : Prop :=
  ∀ o r, w.acme.orders.get? o = some r → ∃ r', w'.acme.orders.get? o = some r' ∧
    r'.identifiers = r.identifiers ∧ r'.accountID = r.accountID

theorem ordersKept_step {e : Env} {w w' : World} {s : adminSig.Stmt} {x : adminSig.Ans s}
    (h : adminExec e w s = some (x, w')) : OrdersKept w w' := by
  intro o r hr
  rcases order_of_admin h o with heq | ⟨s', rfl, hstep⟩
  · exact ⟨r, heq.trans hr, rfl, rfl⟩
  · rw [hr] at hstep
    generalize w'.acme.orders.get? o = r' at hstep
    cases hstep <;> exact ⟨_, rfl, rfl, rfl⟩

theorem ordersKept_upto {i j : Nat} (hij : i ≤ j) (hj : j ≤ moves.length) :
    OrdersKept (tasksUpto w ts moves i).world (tasksUpto w ts moves j).world := by
  refine Pool.upto_related (R := OrdersKept) (fun w o r hr => ⟨r, hr, rfl, rfl⟩) ?_
    (fun _ _ _ _ _ => ordersKept_step) _ hij hj
  intro u v w h h' o r hr
  obtain ⟨r₁, hr₁, hids₁, hacc₁⟩ := h o r hr
  obtain ⟨r₂, hr₂, hids₂, hacc₂⟩ := h' o r₁ hr₁
  exact ⟨r₂, hr₂, hids₂.trans hids₁, hacc₂.trans hacc₁⟩

/-- What an order was placed under stays so. -/
theorem PlacedUnder.later {m m' o : Nat} {order order' : AcmeOrder} {cred : EABCred}
    (h : PlacedUnder w ts moves m o order cred) (hm : m ≤ m') (hm' : m' ≤ moves.length)
    (hids : order'.identifiers = order.identifiers) (hacc : order'.accountID = order.accountID) :
    PlacedUnder w ts moves m' o order' cred := by
  obtain ⟨⟨a, ha, heab⟩, t, replica, body, j, k, e, e', n, x, ht, hjk, hkm, hread, hinsert, hnew,
    hsame⟩ := h
  obtain ⟨a', ha', heab'⟩ := (rowsKept_upto hm hm').accounts _ _ ha
  refine ⟨⟨a', ?_, heab'.trans heab⟩, t, replica, body, j, k, e, e', n, x, ht, hjk, by omega, hread,
    hinsert, hnew, hsame.trans hids.symm⟩
  rw [hacc]
  exact ha'

/-- **Every order was placed under a credential that allows its names.** -/
theorem placedUnder_upto {creds : Table EABCred} {i : Nat} (hi : i ≤ moves.length) {o : Nat}
    {order : AcmeOrder}
    (ho : (tasksUpto (.empty creds) ts moves i).world.acme.orders.get? o = some order) :
    Acme.AcmeOrder.names order ≠ [] ∧ ∃ cred,
      PlacedUnder (.empty creds) ts moves i o order cred ∧
        ∀ n ∈ Acme.AcmeOrder.names order, AllowedName cred n := by
  induction i generalizing order with
  | zero => cases ho
  | succ i ih =>
    have hi' : i ≤ moves.length := by omega
    have hold {r : AcmeOrder}
        (hr : (tasksUpto (.empty creds) ts moves i).world.acme.orders.get? o = some r)
        (hids : order.identifiers = r.identifiers) (hacc : order.accountID = r.accountID) :
        Acme.AcmeOrder.names order ≠ [] ∧ ∃ cred,
          PlacedUnder (.empty creds) ts moves (i + 1) o order cred ∧
            ∀ n ∈ Acme.AcmeOrder.names order, AllowedName cred n := by
      obtain ⟨hne, cred, hplaced, hall⟩ := ih hi' hr
      have hnames : Acme.AcmeOrder.names order = Acme.AcmeOrder.names r := by
        unfold Acme.AcmeOrder.names
        rw [hids]
      rw [hnames]
      exact ⟨hne, cred, hplaced.later (Nat.le_succ i) hi hids hacc, hall⟩
    rcases Pool.upto_asked adminExec (tasks (.empty creds) ts) hi with hs | ⟨s, x, hasked, _⟩
    · refine hold (r := order) ?_ rfl rfl
      rwa [show tasksUpto (.empty creds) ts moves (i + 1) = tasksUpto (.empty creds) ts moves i
        from hs] at ho
    · have hstep : _ ∨ ∃ s', s = .inl s' ∧ OrderStep moves[i].2 o s'
          ((tasksUpto (.empty creds) ts moves i).world.acme.orders.get? o)
          ((tasksUpto (.empty creds) ts moves (i + 1)).world.acme.orders.get? o) :=
        order_of_admin hasked.exec o
      rcases hstep with heq | ⟨s', rfl, hstep⟩
      · exact hold (heq.symm.trans ho) rfl rfl
      rw [ho] at hstep
      generalize hbefore : (tasksUpto (.empty creds) ts moves i).world.acme.orders.get? o = before,
        hafter : some order = after at hstep
      cases hstep with
      | same => exact hold (hbefore.trans hafter.symm) rfl rfl
      | failed problem r hc hr =>
        obtain rfl := Option.some.inj hafter
        exact hold hbefore rfl rfl
      | claimed r hc hr =>
        obtain rfl := Option.some.inj hafter
        exact hold hbefore rfl rfl
      | completed certID r hc =>
        obtain rfl := Option.some.inj hafter
        exact hold hbefore rfl rfl
      | inserted n hc =>
        obtain rfl := Option.some.inj hafter
        obtain ⟨task, htask, hmay⟩ := taskMay_next serve_confines hasked.next
        cases task with
        | deleteCA | deleteCertificate => cases hmay
        | call c =>
          obtain ⟨_, ⟨⟩, body, hrequest, hwarrant, hne⟩ := hmay
          obtain ⟨replica, request⟩ := c
          obtain rfl : request = .newOrder body := hrequest
          obtain ⟨kid, a, cred, ids, ⟨⟨id, -, hread⟩, -⟩, hacc, hcred, hcheck⟩ := hwarrant.allowed
          obtain ⟨j, e, hj, hasked₁⟩ := task_saw hi' hcred
          obtain ⟨j', e', hj', hasked₂⟩ := task_saw hi' hread
          have hid : cred.id = a.eabID :=
            Table.key_of_get? (get?_of_selectEABCred (exec_of_admin hasked₁.exec))
          have haccount := get?_of_selectAcmeAccount (exec_of_admin hasked₂.exec)
          have hida : a.id = id := Table.key_of_get? haccount
          obtain ⟨a', ha', heab⟩ := (rowsKept_upto (by omega : j' ≤ i + 1) hi).accounts _ _ haccount
          refine ⟨fun hnil => hne (List.map_eq_nil_iff.mp hnil), cred, ⟨⟨a', ?_, heab.trans hid.symm⟩,
            _, replica, body, j, i, e, _, n, x, htask, hj, Nat.lt_succ_self i, hid ▸ hasked₁, hasked,
            hbefore, rfl⟩, ?_⟩
          · show (tasksUpto (.empty creds) ts moves (i + 1)).world.acme.accounts.get? n.accountID = _
            rw [hacc, hida]
            exact ha'
          · intro v hv
            obtain ⟨identifier, hmem, rfl⟩ := List.mem_map.mp hv
            exact allowedName_of_checkIdentifiers hcheck identifier hmem

/-- **Confinement**: in every run over a new database, whatever is asked for and in whatever order,
what `Finalize` has signed bears the names of its order and nothing else, and these were allowed to
the credential that the order was placed under. -/
theorem issuance_confined (creds : Table EABCred) (ts : List Task) (moves : Pool.Schedule Env) :
    IssuanceConfined (.empty creds) ts moves where
  signed := by
    intro t replica o body m e tmpl parent pub priv cert ht hasked
    have hm : m ≤ moves.length := (List.getElem?_eq_some_iff.mp hasked.move).1.le
    obtain ⟨task, htask, hmay⟩ := taskMay_next serve_confines hasked.next
    obtain rfl := Option.some.inj (ht.symm.trans htask)
    obtain ⟨_, ⟨⟩, hrequest⟩ := hmay
    obtain ⟨s, order, csr, cn, cred', days, row, p, hwarrant, hissue, hsign⟩ := hrequest o body rfl
    obtain ⟨j, e', hj, hread⟩ := task_saw hm hwarrant.found
    have hfound := get?_of_selectAcmeOrder (exec_of_admin hread.exec)
    obtain ⟨order', horder', hids, -⟩ := ordersKept_upto hj.le hm o order hfound
    obtain ⟨hne, cred, hplaced, hall⟩ := placedUnder_upto hm horder'
    have hnames : Acme.AcmeOrder.names order' = Acme.AcmeOrder.names order := by
      unfold Acme.AcmeOrder.names
      rw [hids]
    have hcreated : Pki.x509CreateCertificate tmpl parent pub priv e.token = .ok cert := by
      obtain ⟨hx, -⟩ := Prod.mk.inj (Option.some.inj (exec_host (exec_of_admin hasked.exec)).2)
      exact Fault.answer_ok hx
    refine ⟨order', cred, horder', ?_, hplaced, hall⟩
    rw [hnames] at hne hall ⊢
    exact confined_of_warrants hwarrant.checked hne (fun n hn => (hall n hn).syntactic) hissue hsign
      hcreated
  stored := by
    intro t replica o body m e n x ht hasked
    have hm : m ≤ moves.length := (List.getElem?_eq_some_iff.mp hasked.move).1.le
    obtain ⟨task, htask, hmay⟩ := taskMay_next serve_confines hasked.next
    obtain rfl := Option.some.inj (ht.symm.trans htask)
    obtain ⟨_, ⟨⟩, hrequest⟩ := hmay
    obtain ⟨tmpl, parent, pub, priv, cert, hpem, hsaw⟩ := hrequest o body rfl
    obtain ⟨j, e', hj, hsigned⟩ := task_saw hm hsaw
    exact ⟨j, hj, e', tmpl, parent, pub, priv, cert, hpem, hsigned⟩

end Run

end Goca
