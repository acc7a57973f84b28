import Goca.Laws.Authority
import Goca.Laws.AuthorityTable
import Goca.Web.Revocation

/-!
# The reasons on revocation lists

A complete list carries one of nine reasons. `CreateCRL` copies what the tables hold, and the tables
hold what the revocations brought, so the reason is decided where a request comes in: a name is
looked up in a table of names, but a number is taken as it is by the API and by the pages, and
package acme turns away the numbers below zero, seven and those above ten, and lets eight pass,
which only lists of changes may carry.

`standard_lists` says that this is all: where every request brings one of the nine, so does every
list, whatever else is asked of the server and in whatever order.
-/

set_option autoImplicit false

namespace Goca

open Goca.Store
open Goca.Pki (X509)
open Interleave (Act Prog Pool Trace)
open Interleave.Act
open Sql (Table)

/-! ## Reasons -/

/-- The reasons that a complete list may carry. -/
def standardReasons : List Int := [0, 1, 2, 3, 4, 5, 6, 9, 10]

/-- **Standard**: a reason of a complete list. -/
def Standard (reason : Int) : Prop := reason ∈ standardReasons

instance (reason : Int) : Decidable (Standard reason) := by
  unfold Standard; infer_instance

/-- A statement writes none but standard reasons. -/
def WritesStandard : Stmt → Prop
  | .ca (.revokeCertificate _ reason) => Standard reason
  | .ca (.recordCARevocation _ _ reason) => Standard reason
  | _ => True

/-- A reason that a request has read from the tables. -/
def Listed (q : Trace sig) (reason : Int) : Prop :=
  (∃ id rows c, Saw q (.ca (.revokedCertificates id)) (.ok rows) ∧ c ∈ rows ∧
    c.revokeCode = reason) ∨
  ∃ id rows c, Saw q (.ca (.caRevocations id)) (.ok rows) ∧ c ∈ rows ∧ c.reason = reason

/-- What the reasons of a statement rest on: what is written is standard, and what is signed was
read. -/
structure ReasonWarrant (q : Trace sig) (s : Stmt) : Prop where
  writes : WritesStandard s
  signs : ∀ issuer key number this next entries,
    s = .host (.createRevocationList issuer key number this next entries) →
      ∀ e ∈ entries, Listed q e.reasonCode

/-- A statement that writes no reason and signs no list. -/
theorem reasonWarrant_of_within {ks : List Effect} (h₁ : .revokeCertificate ∉ ks)
    (h₂ : .recordCARevocation ∉ ks) (h₃ : .signCRL ∉ ks) {q : Trace sig} {s : Stmt}
    (hs : Within ks s) : ReasonWarrant q s := by
  refine ⟨?_, ?_⟩
  · unfold WritesStandard
    split
    · exact absurd hs h₁
    · exact absurd hs h₂
    · exact trivial
  · rintro issuer key number this next entries rfl
    exact absurd hs h₃

/-- A statement that writes a standard reason. -/
theorem reasonWarrant_revoke {q : Trace sig} {reason : Int} (h : Standard reason) (id : Nat) :
    ReasonWarrant q (.ca (.revokeCertificate id reason)) :=
  ⟨h, fun _ _ _ _ _ _ heq => nomatch heq⟩

theorem reasonWarrant_record {q : Trace sig} {reason : Int} (h : Standard reason) (issuer : Nat)
    (serial : String) : ReasonWarrant q (.ca (.recordCARevocation issuer serial reason)) :=
  ⟨h, fun _ _ _ _ _ _ heq => nomatch heq⟩

/-! ## Requests -/

section Requests

variable [Go.Runtime]

/-- A JWS asks for no reason that package acme takes and a complete list may not carry. -/
def StandardBody (body : Acme.Body) : Prop :=
  ∀ j decoded, Acme.parseJWS body = .ok j → Acme.decodeRevocation j = .ok decoded →
    decoded.2 ≠ some 8

/-- The reason that a request brings is standard. -/
def Request.Standard : Request → Prop
  | .revoke _ reason _ => Goca.Standard reason
  | .bulkRevoke i => Goca.Standard i.reason
  | .revokeCA _ _ reason _ _ => Goca.Standard reason
  | .revokeCert body => StandardBody body
  | _ => True

omit [Go.Runtime] in
/-- What package acme accepts beside eight is standard. -/
theorem standard_of_accepted {reason : Option Int} (h₀ : 0 ≤ reason.getD 0)
    (h₇ : reason.getD 0 ≠ 7) (h₁₀ : reason.getD 0 ≤ 10) (h₈ : reason ≠ some 8) :
    Standard (reason.getD 0) := by
  have hne : reason.getD 0 ≠ 8 := by
    cases reason with
    | none => decide
    | some r => exact fun h => h₈ (congrArg some h)
  generalize reason.getD 0 = r at h₀ h₇ h₁₀ hne
  simp only [Standard, standardReasons, List.mem_cons, List.not_mem_nil, or_false]
  omega

omit [Go.Runtime] in
/-- The entries of revoked certificates carry the reasons of their rows. -/
theorem certEntries_traced {ε : Type} {may : Trace sig → Stmt → Prop} {q : Trace sig}
    (hread : AllowsReads may q) (certs : List Certificate) :
    (Ca.certEntries certs : Handler ε (List Pki.RevokedEntry)).Traced may
      (fun _ entries => ∀ e ∈ entries, ∃ c ∈ certs, c.revokeCode = e.reason) q := by
  induction certs generalizing q with
  | nil => exact traced_pure fun e he => nomatch he
  | cons c rest ih =>
    refine (now_saw hread.now).bind fun q₁ t hq₁ _ => ?_
    refine (ih (hread.extend hq₁)).bind fun q₂ entries hq₂ hentries => traced_pure ?_
    intro e he
    rcases List.mem_cons.mp he with rfl | he
    · exact ⟨c, List.mem_cons_self, rfl⟩
    · obtain ⟨c', hc', hreason⟩ := hentries e he
      exact ⟨c', List.mem_cons_of_mem _ hc', hreason⟩

/-- The entries that are signed carry the reasons of the entries that are asked for. -/
theorem reason_of_crlEntries {now : Go.Time} {revoked : List Pki.RevokedEntry}
    {entries : List Pki.CRLEntry} (h : Pki.crlEntries now revoked = .ok entries)
    {e : Pki.CRLEntry} (he : e ∈ entries) : ∃ r ∈ revoked, r.reason = e.reasonCode := by
  induction revoked generalizing entries with
  | nil =>
    cases h
    cases he
  | cons r rest ih =>
    unfold Pki.crlEntries at h
    cases hfirst : Pki.crlEntry now r with
    | error err =>
      rw [hfirst] at h
      cases h
    | ok first =>
    cases hmore : Pki.crlEntries now rest with
    | error err =>
      rw [hfirst, hmore] at h
      cases h
    | ok more =>
    rw [hfirst, hmore] at h
    cases h
    rcases List.mem_cons.mp he with rfl | he
    · refine ⟨r, List.mem_cons_self, ?_⟩
      unfold Pki.crlEntry at hfirst
      split at hfirst
      · cases hfirst
      · cases hfirst
        rfl
    · obtain ⟨r', hr', hreason⟩ := ih hmore he
      exact ⟨r', List.mem_cons_of_mem _ hr', hreason⟩

/-- **A list carries what was read.** -/
theorem generateCRL_traced (s : Ca.Service) (caID : Nat) (actor : String) :
    (s.generateCRL caID actor).Traced ReasonWarrant (fun _ _ => True) [] := by
  have hallow (q : Trace sig) : Allows [.nextCRLNumber] ReasonWarrant q :=
    fun q' s _ hs => reasonWarrant_of_within (by decide) (by decide) (by decide) hs
  refine ((hallow _).reads.traced (getCA_uses caID)).bind fun q₁ rec _ _ => ?_
  refine (traced_failIf fun _ => trivial).bind fun q₂ _ _ (_ : True) => ?_
  refine (traced_failIf fun _ => trivial).bind fun q₃ _ _ (_ : True) => ?_
  refine traced_ofExcept_eq.bind fun q₄ issuerCert _ _ => ?_
  refine traced_ofExcept_eq.bind fun q₅ issuerKey _ _ => ?_
  refine Traced.bind ((hallow _).ca (.revokedCertificates caID) trivial)
    fun q₆ revoked hq₆ hrevoked => ?_
  refine (certEntries_traced (hallow _).reads revoked).bind fun q₇ entries hq₇ hentries => ?_
  refine Traced.bind ((hallow _).ca (.caRevocations caID) trivial)
    fun q₈ caRevs hq₈ hcaRevs => ?_
  have hnumber : (nextCRLNumber caID).Uses (Within [.nextCRLNumber]) :=
    Uses.mapResult (ca_uses (P := Within [.nextCRLNumber]) (List.mem_singleton_self _)) _
  refine ((hallow _).traced hnumber).bind fun q₉ number hq₉ _ => ?_
  have hlisted (q : Trace sig) (hq : q₉ <+: q) :
      ∀ e ∈ entries ++ caRevs.map Ca.caEntry, Listed q e.reason := by
    intro e he
    rcases List.mem_append.mp he with he | he
    · obtain ⟨c, hc, hreason⟩ := hentries e he
      exact .inl ⟨caID, revoked, c, hrevoked.extend (((hq₇.trans hq₈).trans hq₉).trans hq), hc,
        hreason⟩
    · obtain ⟨r, hr, rfl⟩ := List.mem_map.mp he
      exact .inr ⟨caID, caRevs, r, hcaRevs.extend (hq₉.trans hq), hr, rfl⟩
  have hcreate (p : Pki.CRLParams) (hp : p.revoked = entries ++ caRevs.map Ca.caEntry) :
      (Pki.createCRL p).Traced ReasonWarrant (fun _ _ => True) q₉ := by
    refine (now_saw (hallow _).now).bind fun q t hq _ => ?_
    refine traced_ofExcept_eq.bind fun q' signed _ hsigned => ?_
    obtain ⟨rfl, hsigned⟩ := hsigned
    have hsign : ReasonWarrant q' (.host (.createRevocationList p.issuer p.issuerKey p.number t
        (t.addDays (Pki.crlValidity p.validDays)) signed)) := by
      refine ⟨trivial, ?_⟩
      intro issuer key number this next entries' heq e he
      cases heq
      obtain ⟨r, hr, hreason⟩ := reason_of_crlEntries hsigned he
      rw [← hreason]
      exact hlisted q' hq r (hp ▸ hr)
    exact Traced.mapError ((hostCall_saw (host_saw hsign)).mono fun _ _ _ => trivial)
  refine (hcreate _ rfl).bind fun q crl _ _ => ?_
  exact ((hallow _).reads.traced (audit_uses s _ _ _ _)).bind fun _ _ _ _ => traced_pure trivial

/-- **What a request writes and signs**, where it brings a standard reason. -/
theorem serve_reasonWarrant (c : Call) (hc : c.request.Standard) :
    c.serve.Traced ReasonWarrant (fun _ _ => True) [] := by
  have huses {p : Prog sig Reply}
      (hp : p.Uses fun s => ∀ q, ReasonWarrant q s) : p.Traced ReasonWarrant (fun _ _ => True) [] :=
    hp.traced_of (fun q' _ _ hs => hs q') fun _ _ => trivial
  have hreads (s : Stmt) (hs : Within [] s) (q : Trace sig) : ReasonWarrant q s :=
    reasonWarrant_of_within (by decide) (by decide) (by decide) hs
  have hreplace (s : Stmt) (hs : Within [.signCertificate, .setRenewedFrom] s) (q : Trace sig) :
      ReasonWarrant q s := reasonWarrant_of_within (by decide) (by decide) (by decide) hs
  have hinsert (c : Certificate) (_ : Printed c) (q : Trace sig) :
      ReasonWarrant q (.ca (.insertCertificate c)) :=
    have hs : Within [.insertCertificate] (.ca (.insertCertificate c)) := List.mem_singleton_self _
    reasonWarrant_of_within (by decide) (by decide) (by decide) hs
  obtain ⟨acme, request⟩ := c
  cases request with
  | generateCRL caID actor => exact replying_traced (generateCRL_traced acme.caSvc caID actor)
  | renew id i =>
    exact huses (replying_uses (renew_uses _ hreplace hinsert
      (fun id q => reasonWarrant_revoke (by decide) id) id i))
  | renewExpiring withinDays i =>
    exact huses (replying_uses (renewExpiring_uses _ hreplace hinsert
      (fun id q => reasonWarrant_revoke (by decide) id) withinDays i))
  | hold id actor =>
    exact huses (replying_uses (hold_uses _ hreads
      (fun id q => reasonWarrant_revoke (by decide) id) id actor))
  | revoke id reason actor =>
    exact huses (replying_uses (revoke_uses _ hreads
      (fun id q => reasonWarrant_revoke hc id) id actor))
  | bulkRevoke i =>
    exact huses (replying_uses (bulkRevoke_uses _ hreads i
      fun id q => reasonWarrant_revoke hc id))
  | revokeCA depth id reason cascade actor =>
    refine huses (replying_uses (revokeCA_uses _ ?_ (fun id q => reasonWarrant_revoke hc id)
      (fun issuer serial q => reasonWarrant_record hc issuer serial) actor depth id cascade))
    intro s hs q
    exact reasonWarrant_of_within (by decide) (by decide) (by decide) hs
  | revokeCert body =>
    refine huses (replying_uses (revokeCert_uses _ ?_ body ?_))
    · intro s hs q
      exact reasonWarrant_of_within (by decide) (by decide) (by decide) hs
    · intro j decoded hj hdecoded h₀ h₇ h₁₀ id q
      exact reasonWarrant_revoke (standard_of_accepted h₀ h₇ h₁₀ (hc j decoded hj hdecoded)) id
  | _ =>
    refine (serve_uses ⟨acme, _⟩).traced_of ?_ fun _ _ => trivial
    intro q s _ hs
    exact reasonWarrant_of_within (by simp [Request.effects]) (by simp [Request.effects])
      (by simp [Request.effects]) hs

end Requests

/-! ## Where the reasons come from -/

/-- A JSON value gives no number but a standard reason. A text gives one in any case. -/
def Web.ReasonValue.Standard : Web.ReasonValue → Prop
  | .number v => Goca.Standard (Web.truncated v)
  | _ => True

/-- A form field holds no number but a standard reason. -/
def StandardField (s : String) : Prop :=
  ∀ n, Go.parseInt (Go.trimSpace s) = some n → Standard n

section Received

variable [Go.Runtime]

/-- The reason of a revocation is standard where it comes in. -/
def Web.Revocation.Standard : Web.Revocation → Prop
  | .apiCertRevoke _ reason _ => reason.Standard
  | .apiCertBulkRevoke _ _ _ _ _ reason _ => reason.Standard
  | .apiCARevoke _ _ reason _ _ => reason.Standard
  | .handleCertRevoke _ reason _ => StandardField reason
  | .handleCARevoke _ _ reason _ _ => StandardField reason
  | .handleCertBulkAction _ reason _ => StandardField reason
  | .acmeRevokeCert body => StandardBody body

/-- Every name of a reason is the name of a standard one. -/
theorem standard_of_parseReason {s : String} {reason : Int}
    (h : Pki.parseReason s = .ok reason) : Standard reason := by
  have hall : ∀ c ∈ Pki.reasonCases, Standard c.2 := by decide
  unfold Pki.parseReason at h
  split at h
  · next c hfind =>
    obtain rfl := Except.ok.inj h
    exact hall c (List.mem_of_find?_eq_some hfind)
  · cases h

theorem standard_of_certReason {v : Web.ReasonValue} {code : Int} (hv : v.Standard)
    (h : Web.certReason v = .ok code) : Standard code := by
  unfold Web.certReason at h
  split at h
  · obtain rfl := Except.ok.inj h
    exact hv
  · exact standard_of_parseReason h
  · obtain rfl := Except.ok.inj h
    decide
  · obtain rfl := Except.ok.inj h
    decide

theorem standard_of_reasonCode {v : Web.ReasonValue} {d code : Int} (hd : Standard d)
    (hv : v.Standard) (h : Web.reasonCode v d = .ok code) : Standard code := by
  unfold Web.reasonCode at h
  split at h
  · obtain rfl := Except.ok.inj h
    exact hd
  · obtain rfl := Except.ok.inj h
    exact hv
  · split at h
    · obtain rfl := Except.ok.inj h
      exact hd
    · exact standard_of_parseReason h
  · cases h

omit [Go.Runtime] in
theorem standard_atoiDefault {s : String} {d : Int} (hd : Standard d) (hs : StandardField s) :
    Standard (Web.atoiDefault s d) := by
  unfold Web.atoiDefault
  split
  · exact hd
  · cases hn : Go.parseInt (Go.trimSpace s) with
    | none => exact hd
    | some n => exact hs n hn

/-- A handler hands a standard reason on. -/
theorem Web.Revocation.Standard.request {r : Web.Revocation} {request : Request}
    (hr : r.Standard) (h : r.request = .ok request) : request.Standard := by
  have hbind {α : Type} {x : Except Go.Error Int} {f : Int → Except Go.Error α} {a : α}
      (hx : x.bind f = .ok a) : ∃ code, x = .ok code ∧ f code = .ok a := by
    cases x with
    | error e => cases hx
    | ok code => exact ⟨code, rfl, hx⟩
  cases r with
  | apiCertRevoke id reason actor =>
    obtain ⟨code, hcode, h⟩ := hbind h
    cases h
    exact standard_of_certReason hr hcode
  | apiCertBulkRevoke ids query caID profile status reason actor =>
    obtain ⟨code, hcode, h⟩ := hbind h
    dsimp only at h
    split at h
    · cases h
    · cases h
      exact standard_of_reasonCode (by decide) hr hcode
  | apiCARevoke depth id reason cascade actor =>
    obtain ⟨code, hcode, h⟩ := hbind h
    cases h
    exact standard_of_reasonCode (by decide) hr hcode
  | handleCertRevoke id reason actor =>
    cases h
    exact standard_atoiDefault (by decide) hr
  | handleCARevoke depth id reason cascade actor =>
    cases h
    exact standard_atoiDefault (by decide) hr
  | handleCertBulkAction ids reason actor =>
    cases h
    exact standard_atoiDefault (by decide) hr
  | acmeRevokeCert body =>
    cases h
    exact hr

/-- A task that revokes for a reason somebody gives: these come in through handlers. -/
def Task.revokes : Task → Bool
  | .call ⟨_, .revoke _ _ _⟩ | .call ⟨_, .bulkRevoke _⟩ | .call ⟨_, .revokeCA _ _ _ _ _⟩
  | .call ⟨_, .revokeCert _⟩ => true
  | _ => false

/-- What comes in: a revocation, or anything else. -/
inductive Received
  | revocation (replica : Acme.Service) (r : Web.Revocation)
  | other (t : Task) (h : t.revokes = false)

/-- The task it becomes, if it is not refused at once. -/
def Received.task : Received → Option Task
  | .revocation replica r =>
    match r.request with
    | .ok request => some (.call ⟨replica, request⟩)
    | .error _ => none
  | .other t _ => some t

/-- Its reason, if it brings one, is standard. -/
def Received.Standard : Received → Prop
  | .revocation _ r => r.Standard
  | .other _ _ => True

/-- The reason of a task's request. -/
def Task.Standard : Task → Prop
  | .call c => c.request.Standard
  | .deleteCA _ _ _ | .deleteCertificate _ _ _ _ => True

theorem Received.Standard.task {i : Received} {t : Task} (hi : i.Standard)
    (h : i.task = some t) : t.Standard := by
  cases i with
  | revocation replica r =>
    unfold Received.task at h
    dsimp only at h
    split at h
    · next request hrequest =>
      obtain rfl := Option.some.inj h
      exact Web.Revocation.Standard.request hi hrequest
    · cases h
  | other t' hother =>
    obtain rfl := Option.some.inj h
    cases t' with
    | deleteCA | deleteCertificate => exact trivial
    | call c =>
      obtain ⟨acme, request⟩ := c
      cases request <;> first
        | exact trivial
        | cases hother

end Received

/-! ## Runs -/

section Run

variable [Go.Runtime] {e : Env} {w w' : World}

/-- **Standard rows**: every reason that the tables hold is standard. -/
structure StandardRows (t : CaTables) : Prop where
  certificates : ∀ c ∈ t.certificates.rows, c.status = .revoked → Standard c.revokeCode
  authorities : ∀ r ∈ t.caRevocations.rows, Standard r.reason

/-- What the reasons of a task's statement rest on. -/
def TaskReason (q : Trace adminSig) : adminSig.Stmt → Prop
  | .inl s => ReasonWarrant (Prog.leftTrace q) s
  | .inr _ => True

omit [Go.Runtime] in
theorem taskReason_of_adminOnly {q : Trace adminSig} {s : adminSig.Stmt} (hs : AdminOnly s) :
    TaskReason q s := by
  cases s with
  | inl s => exact reasonWarrant_of_within (by decide) (by decide) (by decide) hs
  | inr s => exact trivial

theorem serve_taskReason (t : Task) :
    t.serve.Traced (fun q s => t.Standard → TaskReason q s) (fun _ _ => True) [] := by
  by_cases hcall : ∃ c, t = .call c
  · obtain ⟨c, rfl⟩ := hcall
    by_cases hc : c.request.Standard
    · refine Prog.Traced.embed (q := []) ?_ ?_ (serve_reasonWarrant c hc)
      · intro q s hs _
        exact hs
      · intro _ _ _
        exact trivial
    · refine (Prog.traced_any _ _).mono ?_ fun _ _ _ => trivial
      intro q s _ hstandard
      exact absurd hstandard hc
  · exact (deletion_uses hcall).traced_of (fun _ _ _ hs _ => taskReason_of_adminOnly hs)
      fun _ _ => trivial

/-- A statement that writes standard reasons leaves the rows standard. -/
theorem standardRows_exec {s : Stmt} {x : s.Ans} (h : exec e w s = some (x, w'))
    (hs : WritesStandard s) (hw : StandardRows w.ca) : StandardRows w'.ca := by
  refine exec_ca_induction
    (P := fun s t t' => WritesStandard s → StandardRows t → StandardRows t') ?_ ?_ h hs hw
  · exact fun _ _ _ ht => ht
  intro s t _ hs ht
  have hsame {t' : CaTables} (hcerts : t'.certificates = t.certificates)
      (hlists : t'.caRevocations = t.caRevocations) : StandardRows t' :=
    ⟨hcerts ▸ ht.certificates, hlists ▸ ht.authorities⟩
  have hupdate {p : Certificate → Bool} {f : Certificate → Certificate}
      {hf : ∀ c, (f c).id = c.id}
      (hstandard : ∀ c, (c.status = .revoked → Standard c.revokeCode) →
        (f c).status = .revoked → Standard (f c).revokeCode) :
      StandardRows (t.updateCertificates p f hf) := by
    refine ⟨?_, ht.authorities⟩
    intro c hc hrevoked
    change c ∈ (t.certificates.update p f hf).rows at hc
    obtain ⟨c', hc', rfl⟩ := Table.mem_update.mp hc
    by_cases hp : p c' = true
    · rw [if_pos hp] at hrevoked ⊢
      exact hstandard c' (ht.certificates c' hc') hrevoked
    · rw [if_neg hp] at hrevoked ⊢
      exact ht.certificates c' hc' hrevoked
  cases s with
  | insertCA c =>
    simp only [CaTables.exec]
    split <;> exact hsame rfl rfl
  | completeCA id c =>
    simp only [CaTables.exec]
    split <;> exact hsame rfl rfl
  | insertCertificate c =>
    simp only [CaTables.exec]
    split
    · exact ht
    · refine ⟨?_, ht.authorities⟩
      intro r hr hrevoked
      change r ∈ (t.certificates.insert c.stored fun _ => rfl).rows at hr
      rcases Table.mem_insert.mp hr with hr | rfl
      · exact ht.certificates r hr hrevoked
      · exact (by decide : Standard 0)
  | revokeCertificate id reason => exact hupdate fun _ _ _ => hs
  | unrevokeCertificate id => exact hupdate fun _ _ h => CertStatus.noConfusion h
  | setRenewedFrom id predecessorID => exact hupdate fun _ hc => hc
  | recordCARevocation issuer serial reason =>
    refine ⟨ht.certificates, ?_⟩
    intro r hr
    change r ∈ (t.recordCARevocation issuer serial e.now reason).caRevocations.rows at hr
    unfold CaTables.recordCARevocation at hr
    dsimp only at hr
    split at hr
    · obtain ⟨r', hr', rfl⟩ := Table.mem_update.mp hr
      split
      · exact hs
      · exact ht.authorities r' hr'
    · rcases Table.mem_insert.mp hr with hr | rfl
      · exact ht.authorities r hr
      · exact hs
  | _ => exact hsame rfl rfl

/-- And so does a deletion. -/
theorem standardRows_delete {s : DeleteStmt} {x : s.Ans}
    (h : adminExec e w (.inr s) = some (x, w')) (hw : StandardRows w.ca) : StandardRows w'.ca := by
  rcases deleteExec_cases h with rfl | ⟨_, _, _, rfl⟩
  · exact hw
  · exact ⟨fun c hc => hw.certificates c (Table.mem_delete.mp hc).1,
      fun r hr => hw.authorities r (Table.mem_delete.mp hr).1⟩

variable {creds : Table EABCred} {ts : List Task} {moves : Pool.Schedule Env}

/-- What a task asks next is warranted, where every task is standard. -/
theorem taskReason_next (hts : ∀ t ∈ ts, t.Standard) {i t : Nat} {s : adminSig.Stmt}
    (hs : (tasksUpto (.empty creds) ts moves i).next? t = some s) :
    TaskReason (Interleave.own t (tasksUpto (.empty creds) ts moves i).history) s := by
  obtain ⟨task, htask, hreason⟩ := task_may serve_taskReason hs
  exact hreason (hts task (List.mem_of_getElem? htask))

/-- In every state of a run of standard tasks the rows are standard. -/
theorem standardRows_upto (hts : ∀ t ∈ ts, t.Standard) {i : Nat} (hi : i ≤ moves.length) :
    StandardRows (tasksUpto (.empty creds) ts moves i).world.ca := by
  induction i with
  | zero => exact ⟨(fun c hc => nomatch hc), (fun r hr => nomatch hr)⟩
  | succ i ih =>
    have hi' : i ≤ moves.length := by omega
    rcases Pool.upto_asked adminExec (tasks (.empty creds) ts) hi with hs | ⟨s, x, hasked, _⟩
    · show StandardRows (Pool.upto adminExec _ moves (i + 1)).world.ca
      rw [hs]
      exact ih hi'
    · cases s with
      | inl s =>
        exact standardRows_exec (exec_of_admin hasked.exec) (taskReason_next hts hasked.next).writes
          (ih hi')
      | inr s => exact standardRows_delete hasked.exec (ih hi')

/-- A reason that a task has read is standard. -/
theorem standard_of_listed (hts : ∀ t ∈ ts, t.Standard) {i t : Nat} (hi : i ≤ moves.length)
    {reason : Int}
    (h : Listed (Prog.leftTrace (Interleave.own t (tasksUpto (.empty creds) ts moves i).history))
      reason) : Standard reason := by
  rcases h with ⟨id, rows, c, hsaw, hc, rfl⟩ | ⟨id, rows, r, hsaw, hr, rfl⟩
  · obtain ⟨j, e, hj, hasked⟩ := task_saw hi hsaw
    obtain ⟨_, hx, _⟩ := exec_ca (exec_of_admin hasked.exec)
    obtain rfl := Except.ok.inj (Fault.apply_ok hx.symm).1
    have hmem := (List.mem_insertionSort _).mp hc
    obtain ⟨hc', hselected⟩ := List.mem_filter.mp hmem
    simp only [Bool.and_eq_true, beq_iff_eq] at hselected
    exact (standardRows_upto hts (hj.le.trans hi)).certificates c hc' hselected.2
  · obtain ⟨j, e, hj, hasked⟩ := task_saw hi hsaw
    obtain ⟨_, hx, _⟩ := exec_ca (exec_of_admin hasked.exec)
    obtain rfl := Except.ok.inj (Fault.apply_ok hx.symm).1
    have hmem := (List.mem_insertionSort _).mp hr
    exact (standardRows_upto hts (hj.le.trans hi)).authorities r (List.mem_filter.mp hmem).1

/-- The entries that a statement signs. -/
def signedEntries : adminSig.Stmt → List Pki.CRLEntry
  | .inl (.host (.createRevocationList _ _ _ _ _ entries)) => entries
  | _ => []

omit [Go.Runtime] in
/-- What a task signs it has read. -/
theorem TaskReason.signed {q : Trace adminSig} {s : adminSig.Stmt} (h : TaskReason q s)
    {entry : Pki.CRLEntry} (hentry : entry ∈ signedEntries s) :
    Listed (Prog.leftTrace q) entry.reasonCode := by
  unfold signedEntries at hentry
  split at hentry
  · exact h.signs _ _ _ _ _ _ rfl entry hentry
  · cases hentry

/-- **Standard lists**: every entry of every list that was signed carries a standard reason. -/
def ListsStandard (history : List (Interleave.Event adminSig)) : Prop :=
  ∀ ev ∈ history, ∀ entry ∈ signedEntries ev.stmt, Standard entry.reasonCode

/-- **The reasons on revocation lists**: in every run over a new database, any number of revocations
from the API, the pages and package acme and of other requests and deletions, interleaved in any
way, every list carries standard reasons, if every revocation brings one. -/
theorem lists_standard (creds : Table EABCred) (incoming : List Received)
    (moves : Pool.Schedule Env) (h : ∀ i ∈ incoming, i.Standard) :
    ListsStandard
      (tasksUpto (.empty creds) (incoming.filterMap Received.task) moves moves.length).history := by
  have hts : ∀ t ∈ incoming.filterMap Received.task, t.Standard := by
    intro t ht
    obtain ⟨i, hi, htask⟩ := List.mem_filterMap.mp ht
    exact (h i hi).task htask
  rintro ⟨t, s, x⟩ hev entry hentry
  obtain ⟨i, e, hi, hasked⟩ := Pool.history_origin (le_refl _) rfl hev
  exact standard_of_listed hts hi.le ((taskReason_next hts hasked.next).signed hentry)

end Run

/-! ## A list with a reason that nobody knows -/

open Samples

section Seven

attribute [local instance] Go.asciiRuntime

/-- A root and an authority under it, which is retired through the API for the given reason; then
the root's list is made. -/
def retiredFor (reason : Rat) : List Received := [
  .other (.call ⟨replica, .createCA { name := "Root", subject := { commonName := "Root" } }⟩) rfl,
  .other (.call ⟨replica, .createCA {
    name := "Sub"
    subject := { commonName := "Sub" }
    parentRef := "Root" }⟩) rfl,
  .revocation replica (.apiCARevoke 1 2 (.number reason) false "ops"),
  .other (.call ⟨replica, .generateCRL 1 "ops"⟩) rfl]

/-- The run of it, one task after the other. -/
def retiredRun (reason : Rat) : List (Interleave.Event adminSig) :=
  (tasksUpto (.empty .empty) ((retiredFor reason).filterMap Received.task) (inSequence 4)
    (inSequence 4).length).history

instance (history : List (Interleave.Event adminSig)) : Decidable (ListsStandard history) := by
  unfold ListsStandard; infer_instance

/-- Retired because it ceased its operation, the authority is listed under a standard reason. -/
theorem retiredFor_five : ListsStandard (retiredRun 5) := by
  refine lists_standard .empty (retiredFor 5) (inSequence 4) ?_
  intro i hi
  simp only [retiredFor, List.mem_cons, List.not_mem_nil, or_false] at hi
  rcases hi with rfl | rfl | rfl | rfl
  · exact trivial
  · exact trivial
  · exact (by decide +kernel : Standard (Web.truncated 5))
  · exact trivial

/-- Retired for the number seven, which is no reason, it is listed under seven. -/
theorem retiredFor_seven : ¬ ListsStandard (retiredRun 7) := by decide +kernel

end Seven

end Goca
