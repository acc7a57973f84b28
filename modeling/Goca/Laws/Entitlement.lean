import Goca.Laws.Orders
import Goca.Laws.Reference

/-!
# Who may revoke over ACME

A revocation request names no certificate by number, it carries one. `RevokeCert` finds a row by
the serial, which is not unique, and compares fingerprints; then an account must stand under the
credential of the order that delivered the row, and a bare key must be the certificate's own.

Three things that are far apart hold this together. A row has the fingerprint of what it holds,
because `issue` writes both. An order refers to a certificate only after a request that finalized it
has stored it. And who holds an order, and under which credential, never changes. So what the
request has read at different moments is still so when it revokes.
-/

set_option autoImplicit false

namespace Goca

open Goca.Acme (Body ParsedJWS Problem Revoker)
open Goca.Pki (X509 fingerprintSHA256)
open Goca.Store
open Interleave (Act Pool Prog Trace own)
open Interleave.Act
open Sql (Table)

/-! ## Rows and their fingerprints -/

/-- A statement stores a certificate under its own fingerprint. -/
def Prints : Stmt → Prop
  | .ca (.insertCertificate c) => Printed c
  | _ => True

theorem prints_of_within {ks : List Effect} (h : .insertCertificate ∉ ks) {s : Stmt}
    (hs : Within ks s) : Prints s := by
  unfold Prints
  split
  · exact absurd hs h
  · trivial

/-- **Every request** stores certificates under their own fingerprints. -/
theorem serve_prints [Go.Runtime] (c : Call) : c.serve.Uses Prints := by
  have hwithin {ks : List Effect} (h : .insertCertificate ∉ ks) (s : Stmt) (hs : Within ks s) :
      Prints s := prints_of_within h hs
  obtain ⟨acme, request⟩ := c
  cases request with
  | issue i => exact replying_uses (issue_uses _ (hwithin (by decide)) (fun _ h => h) i)
  | renew id i =>
    exact replying_uses (renew_uses _ (hwithin (by decide)) (fun _ h => h) (fun _ => trivial) id i)
  | renewExpiring withinDays i =>
    exact replying_uses (renewExpiring_uses _ (hwithin (by decide)) (fun _ h => h)
      (fun _ => trivial) withinDays i)
  | finalize orderID body =>
    exact replying_uses (finalize_uses _ (hwithin (by decide)) (fun _ h => h) orderID body)
  | _ => exact (serve_uses ⟨acme, _⟩).mono (hwithin (by simp [Request.effects]))

/-- The same of a statement of a task. -/
def TaskPrints : adminSig.Stmt → Prop
  | .inl s => Prints s
  | .inr _ => True

theorem prints_of_adminOnly {s : adminSig.Stmt} (hs : AdminOnly s) : TaskPrints s := by
  cases s with
  | inl s => exact prints_of_within (by decide) hs
  | inr s => trivial

theorem task_prints [Go.Runtime] (t : Task) : t.serve.Uses TaskPrints := by
  by_cases hcall : ∃ c, t = .call c
  · obtain ⟨c, rfl⟩ := hcall
    exact Prog.Uses.embed (fun _ hs => hs) (serve_prints c)
  · exact (deletion_uses hcall).mono fun _ => prints_of_adminOnly

/-- Every row has the fingerprint of what it holds. -/
def PrintedRows (t : CaTables) : Prop := ∀ r ∈ t.certificates.rows, Printed r

/-- One statement keeps the rows printed. -/
theorem printedRows_step [Go.Runtime] {e : Env} {w w' : World} {s : adminSig.Stmt}
    {x : adminSig.Ans s} (hs : TaskPrints s) (hw : PrintedRows w.ca)
    (h : adminExec e w s = some (x, w')) : PrintedRows w'.ca := by
  intro r hr
  cases s with
  | inl s =>
    have hstep := cert_step (exec_of_admin h) r.id
    have hafter : w'.ca.certificates.get? r.id = some r := Table.get?_of_mem hr
    have hold : ∀ r₀, w.ca.certificates.get? r.id = some r₀ → Printed r₀ :=
      fun r₀ h₀ => hw r₀ (Table.mem_of_get? h₀)
    generalize r.id = i, w.ca.certificates.get? r.id = before,
      w'.ca.certificates.get? r.id = after at hstep hold hafter
    cases hstep with
    | same => exact hold r hafter
    | inserted n hc =>
      obtain rfl := Option.some.inj hafter
      exact hs
    | revoked reason r₀ hc hr₀ =>
      obtain rfl := Option.some.inj hafter
      exact hold r₀ rfl
    | unrevoked r₀ hc =>
      obtain rfl := Option.some.inj hafter
      exact hold r₀ rfl
    | renewed p r₀ hc =>
      obtain rfl := Option.some.inj hafter
      exact hold r₀ rfl
  | inr s =>
    rcases deleteExec_cases h with rfl | ⟨_, _, _, rfl⟩
    · exact hw r hr
    · exact hw r (Table.mem_delete.mp hr).1

/-! ## What a revocation rests on -/

/-- An order that delivered certificate `n` belongs to an account under the credential of `a`. -/
def SharesCredential (a : AcmeAccount) (n : Nat) (q : Trace sig) : Prop :=
  ∃ order owner, Saw q (.acme (.selectAcmeOrderByCertificate n)) (.ok (some order)) ∧
    Saw q (.acme (.selectAcmeAccount order.accountID)) (.ok (some owner)) ∧ owner.eabID = a.eabID

/-- The request was signed by this signer. -/
def SignedAs (j : ParsedJWS) (q : Trace sig) : Revoker → Prop
  | .account a => j.keyID ≠ "" ∧ Resolved j.keyID a q ∧ j.verify a.jwk = .ok ()
  | .key k => j.keyID = "" ∧ ∃ key, k = some key ∧ j.verify key = .ok ()

theorem SignedAs.extend {j : ParsedJWS} {q q' : Trace sig} {r : Revoker} (h : SignedAs j q r)
    (hq : q <+: q') : SignedAs j q' r := by
  cases r with
  | account a => exact ⟨h.1, h.2.1.extend hq, h.2.2⟩
  | key k => exact h

/-- The signer may revoke certificate `n`, which is `leaf`. -/
def RevokerEntitled (leaf : X509) (n : Nat) (q : Trace sig) : Revoker → Prop
  | .account a => SharesCredential a n q
  | .key k => k = some leaf.publicKey

theorem RevokerEntitled.extend {leaf : X509} {n : Nat} {q q' : Trace sig} {r : Revoker}
    (h : RevokerEntitled leaf n q r) (hq : q <+: q') : RevokerEntitled leaf n q' r := by
  cases r with
  | account a =>
    obtain ⟨order, owner, horder, howner, heab⟩ := h
    exact ⟨order, owner, horder.extend hq, howner.extend hq, heab⟩
  | key k => exact h

/-- What a revocation request has checked when it asks for the revocation of certificate `n`. -/
def RevocationWarrant (body : Body) (n : Nat) (reason : Int) (q : Trace sig) : Prop :=
  ∃ j leaf requested serial row signer, Acme.parseJWS body = .ok j ∧
    Acme.decodeRevocation j = .ok (leaf, requested) ∧ reason = requested.getD 0 ∧
    Saw q (.ca (.selectCertificateBySerial serial)) (.ok (some row)) ∧ row.id = n ∧
    row.fingerprint = fingerprintSHA256 leaf ∧ SignedAs j q signer ∧
    RevokerEntitled leaf n q signer

/-- No certificate has been revoked yet. -/
def NoneRevoked (q : Trace sig) : Prop :=
  ∀ x ∈ q, ∀ n reason, x.1 ≠ .ca (.revokeCertificate n reason)

theorem noneRevoked_nil : NoneRevoked [] := fun _ h => nomatch h

theorem NoneRevoked.snoc {ks : List Effect} (hks : .revokeCertificate ∉ ks) {q : Trace sig}
    {s : Stmt} {x : s.Ans} (h : NoneRevoked q) (hs : Within ks s) : NoneRevoked (q ++ [⟨s, x⟩]) := by
  intro y hy n reason
  rcases List.mem_append.mp hy with hy | hy
  · exact h y hy n reason
  · intro heq
    cases List.mem_singleton.mp hy
    obtain rfl : s = .ca (.revokeCertificate n reason) := heq
    exact hks hs

/-- A revocation request revokes once, and under its warrant. -/
def RevokesOn (body : Body) (q : Trace sig) (s : Stmt) : Prop :=
  ∀ n reason, s = .ca (.revokeCertificate n reason) →
    NoneRevoked q ∧ RevocationWarrant body n reason q

theorem revokesOn_of_within {ks : List Effect} (h : .revokeCertificate ∉ ks) {body : Body}
    {q : Trace sig} {s : Stmt} (hs : Within ks s) : RevokesOn body q s := by
  rintro n reason rfl
  exact absurd hs h

/-- A revocation has taken effect on a row. -/
def RevokedOne (q : Trace sig) : Prop :=
  ∃ n reason k, Saw q (.ca (.revokeCertificate n reason)) (.ok k) ∧ k ≠ (0 : Nat)

section Request

variable {body : Body} {q : Trace sig} {may : Trace sig → Stmt → Prop}

theorem revoker_signed (j : ParsedJWS) (hread : AllowsReads may q) :
    (Acme.revoker j).Traced may (fun q' r => SignedAs j q' r) q := by
  refine traced_ite (fun hkid => ?_) fun hkid => ?_
  · refine (resolveAccount_traced j.keyID hread).bind fun q₁ a _ ha => ?_
    refine traced_ofExcept_eq.bind fun q₂ _ hq₂ ⟨_, hverify⟩ => traced_pure ?_
    exact ⟨hkid, ha.extend hq₂, mapError_ok hverify⟩
  · refine traced_ofExcept_eq.bind fun q₂ _ _ ⟨_, hverify⟩ => traced_pure ⟨not_not.mp hkid, ?_⟩
    cases hjwk : j.jwk with
    | none =>
      rw [hjwk] at hverify
      cases hverify
    | some key =>
      rw [hjwk] at hverify
      exact ⟨key, rfl, mapError_ok hverify⟩

theorem revocationActor_entitled {leaf : X509} {signer : Revoker} (n : Nat)
    (hkey : Acme.checkRevokerKey signer leaf = .ok ()) (hread : AllowsReads may q) :
    (Acme.revocationActor signer n).Traced may (fun q' _ => RevokerEntitled leaf n q' signer) q := by
  cases signer with
  | key k =>
    refine traced_pure ?_
    unfold Acme.checkRevokerKey at hkey
    dsimp only at hkey
    split at hkey
    next h => exact h
    next => cases hkey
  | account a =>
    have horder : (getAcmeOrderByCertificate n).Traced may _ q :=
      row_traced (hread.acme (.selectAcmeOrderByCertificate n) trivial)
    refine Traced.bind (Traced.mapError horder) fun q₁ order hq₁ horder => ?_
    have howner : (getAcmeAccount order.accountID).Traced may _ q₁ :=
      row_traced ((hread.extend hq₁).acme (.selectAcmeAccount order.accountID) trivial)
    refine Traced.bind (Traced.mapError howner) fun q₂ owner hq₂ howner => ?_
    refine traced_failIf_eq.bind fun q₃ _ hq₃ ⟨_, hsame⟩ => ?_
    have hq₀₃ := (hq₁.trans hq₂).trans hq₃
    have hcred : (getEABCred a.eabID).Uses (Within []) := (acme_uses trivial).mapResult _
    refine ((hread.extend hq₀₃).traced (orInternal_uses hcred)).bind fun q₄ _ hq₄ _ => ?_
    exact traced_pure ⟨order, owner, horder.extend ((hq₂.trans hq₃).trans hq₄),
      howner.extend (hq₃.trans hq₄), not_not.mp hsame⟩

/-- A revocation asks for one, after what only reads. -/
theorem revoke_revokes (svc : Ca.Service) (id : Nat) (reason : Int) (actor : String)
    (hread : AllowsReads may q) (hnone : NoneRevoked q)
    (hrevoke : ∀ q', q <+: q' → NoneRevoked q' → may q' (.ca (.revokeCertificate id reason))) :
    (svc.revoke id reason actor).Traced may (fun q' _ => RevokedOne q') q := by
  refine ((hread.traced (getCertificate_uses id)).and_keeps (getCertificate_uses id)
    (fun _ _ _ h hs => h.snoc List.not_mem_nil hs) hnone).bind fun q₁ c hq₁ ⟨_, hnone₁⟩ => ?_
  have hrevoked : (revokeCertificate id reason).Traced may (fun q' _ => RevokedOne q') q₁ := by
    refine (ca_saw (hrevoke q₁ hq₁ hnone₁)).bind fun q₂ k _ hk => ?_
    refine traced_failIf_eq.mono fun q₃ _ h => ?_
    obtain ⟨rfl, hne⟩ := h
    exact ⟨id, reason, k, hk, hne⟩
  refine hrevoked.bind fun q₂ _ hq₂ hone => ?_
  refine ((hread.extend (hq₁.trans hq₂)).traced (audit_uses svc _ _ _ _)).extends.mono ?_
  intro q₃ _ h
  obtain ⟨n, r, k, hk, hne⟩ := hone
  exact ⟨n, r, k, hk.extend h.1, hne⟩

variable [Go.Runtime]

theorem presentedCertificate_traced (leaf : X509) (hread : AllowsReads may q) :
    (Acme.presentedCertificate leaf).Traced may (fun q' row =>
      (∃ serial, Saw q' (.ca (.selectCertificateBySerial serial)) (.ok (some row))) ∧
        row.fingerprint = fingerprintSHA256 leaf) q := by
  have hget : (getCertificateBySerial (Pki.serialHex leaf.serialNumber)).Traced may _ q :=
    row_traced (hread.ca (.selectCertificateBySerial _) trivial)
  refine Traced.bind (Traced.mapError hget) fun q₁ row hq₁ hrow => ?_
  refine traced_failIf_eq.bind fun q₂ _ hq₂ ⟨_, hprint⟩ => ?_
  refine traced_failIf_eq.bind fun q₃ _ hq₃ _ => traced_pure ?_
  exact ⟨⟨_, hrow.extend (hq₂.trans hq₃)⟩, not_not.mp hprint⟩

/-- **RevokeCert** revokes once, the certificate that it was shown, for a signer who is entitled to
it; and it reports success only after that took effect. -/
theorem revokeCert_revokes (s : Acme.Service) (body : Body) :
    (s.revokeCert body).Traced (RevokesOn body) (fun q _ => RevokedOne q) [] := by
  have hallow {ks : List Effect} (h : .revokeCertificate ∉ ks) (q : Trace sig) :
      Allows ks (RevokesOn body) q := fun _ _ _ hs => revokesOn_of_within h hs
  have hkeep {ks : List Effect} (h : .revokeCertificate ∉ ks) (q : Trace sig) (s : Stmt) (x : s.Ans)
      (hq : NoneRevoked q) (hs : Within ks s) : NoneRevoked (q ++ [⟨s, x⟩]) := hq.snoc h hs
  refine traced_ofExcept_eq.bind fun q₁ j _ ⟨hq₁, hparse⟩ => ?_
  refine traced_ofExcept_eq.bind fun q₂ _ _ ⟨hq₂, _⟩ => ?_
  have hnone₂ : NoneRevoked q₂ := by
    rw [hq₂, hq₁]
    exact noneRevoked_nil
  have hnonce : (Acme.checkNonce j).Uses (Within [.consumeNonce]) :=
    checkNonce_uses (List.mem_singleton_self _) j
  refine (((hallow (by decide) q₂).traced hnonce).and_keeps hnonce (hkeep (by decide))
    hnone₂).bind fun q₃ _ hq₃ ⟨_, hnone₃⟩ => ?_
  refine ((revoker_signed j (hallow List.not_mem_nil q₃)).and_keeps (revoker_uses j)
    (hkeep List.not_mem_nil) hnone₃).bind fun q₄ signer hq₄ ⟨hsigner, hnone₄⟩ => ?_
  refine traced_ofExcept_eq.bind fun q₅ decoded _ ⟨hq₅, hdecoded⟩ => ?_
  obtain ⟨leaf, requested⟩ := decoded
  refine traced_ofExcept_eq.bind fun q₆ _ _ ⟨hq₆, hkey⟩ => ?_
  obtain rfl : q₆ = q₄ := hq₆.trans hq₅
  refine ((presentedCertificate_traced leaf (hallow List.not_mem_nil q₆)).and_keeps
    (presentedCertificate_uses leaf) (hkeep List.not_mem_nil) hnone₄).bind
    fun q₇ row hq₇ ⟨hrow, hnone₇⟩ => ?_
  obtain ⟨⟨serial, hfound⟩, hprint⟩ := hrow
  refine ((revocationActor_entitled row.id hkey (hallow List.not_mem_nil q₇)).and_keeps
    (revocationActor_uses signer row.id) (hkeep List.not_mem_nil) hnone₇).bind
    fun q₈ actor hq₈ ⟨hentitled, hnone₈⟩ => ?_
  refine traced_failIf_eq.bind fun q₉ _ _ ⟨hq₉, _⟩ => ?_
  rw [hq₉]
  refine orInternal_traced (revoke_revokes s.caSvc row.id (requested.getD 0) actor
    (hallow List.not_mem_nil q₈) hnone₈ ?_)
  rintro q hq hnone n reason ⟨⟩
  refine ⟨hnone, ⟨j, leaf, requested, serial, row, signer, mapError_ok hparse, hdecoded, rfl,
    hfound.extend (hq₈.trans hq), rfl, hprint, ?_, ?_⟩⟩
  · exact hsigner.extend ((hq₇.trans hq₈).trans hq)
  · exact hentitled.extend hq

end Request

/-! ## What does not change -/

section Kept

variable [Go.Runtime] {e : Env} {w w' w'' : World}

/-- Two rows have one fingerprint. -/
def SamePrint (r r' : Certificate) : Prop := r'.fingerprint = r.fingerprint

omit [Go.Runtime] in
theorem SamePrint.refl (r : Certificate) : SamePrint r r := rfl

omit [Go.Runtime] in
theorem SamePrint.trans (r r' r'' : Certificate) (h : SamePrint r r') (h' : SamePrint r' r'') :
    SamePrint r r'' := Eq.trans h' h

/-- A certificate that is still there holds what it held, and an account signs with its key. -/
structure HoldersKept (w w' : World) : Prop where
  certificates : w.ca.certificates.Follows SamePrint w'.ca.certificates
  accounts : ∀ a r, w.acme.accounts.get? a = some r →
    ∃ r', w'.acme.accounts.get? a = some r' ∧ r'.jwk = r.jwk

omit [Go.Runtime] in
theorem HoldersKept.refl (w : World) : HoldersKept w w :=
  ⟨.refl SamePrint.refl _, fun _ r hr => ⟨r, hr, rfl⟩⟩

omit [Go.Runtime] in
theorem HoldersKept.trans (h : HoldersKept w w') (h' : HoldersKept w' w'') : HoldersKept w w'' := by
  refine ⟨h.certificates.trans SamePrint.trans h'.certificates, ?_⟩
  intro a r hr
  obtain ⟨r₁, hr₁, heq₁⟩ := h.accounts a r hr
  obtain ⟨r₂, hr₂, heq₂⟩ := h'.accounts a r₁ hr₁
  exact ⟨r₂, hr₂, heq₂.trans heq₁⟩

theorem fingerprints_kept {s : Stmt} {x : s.Ans} (h : exec e w s = some (x, w')) :
    w.ca.certificates.Follows SamePrint w'.ca.certificates := by
  refine exec_ca_induction (P := fun _ t t' =>
    t.certificates.Follows SamePrint t'.certificates) (fun _ _ => .refl SamePrint.refl _) ?_ h
  intro s t _
  cases s with
  | insertCA n =>
    simp only [CaTables.exec]
    split <;> exact .refl SamePrint.refl _
  | completeCA id n =>
    simp only [CaTables.exec]
    split <;> exact .refl SamePrint.refl _
  | insertCertificate c =>
    simp only [CaTables.exec]
    split
    · exact .refl SamePrint.refl _
    · exact Table.follows_insert SamePrint.refl _ (fun i => c.stored i) fun _ => rfl
  | revokeCertificate id reason =>
    simp only [CaTables.exec, CaTables.updateCertificates]
    exact Table.follows_update SamePrint.refl _ _ _ fun _ => rfl
  | unrevokeCertificate id =>
    simp only [CaTables.exec, CaTables.updateCertificates]
    exact Table.follows_update SamePrint.refl _ _ _ fun _ => rfl
  | setRenewedFrom id p =>
    simp only [CaTables.exec, CaTables.updateCertificates]
    exact Table.follows_update SamePrint.refl _ _ _ fun _ => rfl
  | recordCARevocation issuer serial reason =>
    simp only [CaTables.exec]
    exact .refl SamePrint.refl _
  | _ => exact .refl SamePrint.refl _

/-- Every statement of a task keeps the holders. -/
theorem holdersKept_step {s : adminSig.Stmt} {x : adminSig.Ans s}
    (h : adminExec e w s = some (x, w')) : HoldersKept w w' := by
  cases s with
  | inl s =>
    have hexec := exec_of_admin h
    refine ⟨fingerprints_kept hexec, ?_⟩
    intro a r hr
    have hstep := account_step hexec a
    rw [hr] at hstep
    generalize w'.acme.accounts.get? a = r' at hstep
    cases hstep <;> exact ⟨_, rfl, rfl⟩
  | inr s =>
    rcases deleteExec_cases h with rfl | ⟨_, _, _, rfl⟩
    · exact .refl _
    · exact ⟨Table.follows_delete SamePrint.refl _ _, fun _ r hr => ⟨r, hr, rfl⟩⟩

end Kept

/-! ## What every request asks -/

section Asked

variable [Go.Runtime]

/-- A request asks for its own effects only, and one for a revocation under its warrant. -/
def CallRevokes (c : Call) (q : Trace sig) (s : Stmt) : Prop :=
  Within c.request.effects s ∧ ∀ body, c.request = .revokeCert body → RevokesOn body q s

theorem serve_callRevokes (c : Call) : c.serve.Traced (CallRevokes c)
    (fun q r => ∀ body, c.request = .revokeCert body → r = .done → RevokedOne q) [] := by
  by_cases hrevoke : ∃ body, c.request = .revokeCert body
  · obtain ⟨acme, request⟩ := c
    obtain ⟨body, rfl : request = .revokeCert body⟩ := hrevoke
    have hserved : (replying Reply.refused (fun _ => .done) (acme.revokeCert body)).Traced
        (RevokesOn body) (fun q r => r = .done → RevokedOne q) [] := by
      refine Prog.Traced.bind (revokeCert_revokes acme body) fun q r _ hr => ?_
      cases r with
      | ok u => exact Prog.traced_pure.mpr fun _ => hr u rfl
      | error p => exact Prog.traced_pure.mpr fun h => nomatch h
    refine (Prog.Traced.and_uses hserved (serve_uses ⟨acme, .revokeCert body⟩)).mono ?_ ?_
    · rintro q s ⟨hs, hwithin⟩
      refine ⟨hwithin, ?_⟩
      rintro body' ⟨⟩
      exact hs
    · rintro q r hr body' - hdone
      exact hr hdone
  · refine (serve_uses c).traced.mono (fun q s hs => ⟨hs, ?_⟩) fun q r _ body hbody => ?_
    · exact fun body hbody => absurd ⟨body, hbody⟩ hrevoke
    · exact absurd ⟨body, hbody⟩ hrevoke

end Asked

/-! ## Runs -/

section Run

variable [Go.Runtime] (w : World) (ts : List Task) (moves : Pool.Schedule Env)

/-- The revocation state of certificate `n`. -/
def revocation (n : Nat) (w : World) : Option (CertStatus × Option Go.Time × Int) :=
  (w.ca.certificates.get? n).map fun c => (c.status, c.revokedAt, c.revokeCode)

/-- Task `t` is a revocation request with this body. -/
def IsRevocation (ts : List Task) (t : Nat) (body : Body) : Prop :=
  ∃ acme, ts[t]? = some (.call ⟨acme, .revokeCert body⟩)

/-- At move `m` task `t` changes the revocation state of certificate `n`. -/
def ChangesAt (t m n : Nat) : Prop :=
  ∃ e s x, Pool.AskedAt adminExec (tasks w ts) moves m t e s x ∧
    revocation n (tasksUpto w ts moves (m + 1)).world ≠ revocation n (tasksUpto w ts moves m).world

/-- Before move `m` a request that finalizes order `o` has stored certificate `n`. -/
def ProducedBy (m o n : Nat) : Prop :=
  ∃ i < m, ∃ t e acme body c, ts[t]? = some (.call ⟨acme, .finalize o body⟩) ∧
    Pool.AskedAt adminExec (tasks w ts) moves i t e (.inl (.ca (.insertCertificate c))) (.ok n)

/-- At move `m` the account that signed a request may revoke certificate `n`: an order of an account
under its own credential produced it. -/
def AccountMayRevoke (m : Nat) (j : ParsedJWS) (n : Nat) : Prop :=
  let acme := (tasksUpto w ts moves m).world.acme
  ∃ id a o order owner, Acme.accountIDOf j.keyID = some id ∧ acme.accounts.get? id = some a ∧
    j.signer = a.jwk ∧ acme.orders.get? o = some order ∧
    acme.accounts.get? order.accountID = some owner ∧ owner.eabID = a.eabID ∧
    ProducedBy w ts moves m o n

/-- At move `m` certificate `n` is the one that the request presents, it becomes revoked for the
reason that the request gives, and the signer of the request may do that. -/
def Warranted (m : Nat) (body : Body) (n : Nat) : Prop :=
  ∃ j leaf requested row t, Acme.parseJWS body = .ok j ∧
    Acme.decodeRevocation j = .ok (leaf, requested) ∧
    (tasksUpto w ts moves m).world.ca.certificates.get? n = some row ∧
    row.certPEM = some leaf ∧ row.status ≠ .revoked ∧
    (tasksUpto w ts moves (m + 1)).world.ca.certificates.get? n =
      some (row.revoke t (requested.getD 0)) ∧
    (j.keyID = "" ∧ j.signer = leaf.publicKey ∨
      j.keyID ≠ "" ∧ AccountMayRevoke w ts moves m j n)

/-- What holds of the revocation requests of a run. -/
structure RevocationsEntitled : Prop where
  /-- They change nothing but what they may. -/
  warranted : ∀ t body m n, IsRevocation ts t body → ChangesAt w ts moves t m n →
    Warranted w ts moves m body n
  /-- One that reports success has revoked one certificate, once. -/
  single : ∀ t body, IsRevocation ts t body →
    (tasksUpto w ts moves moves.length).threads[t]? = some (.pure .done) →
    ∃ m n, ChangesAt w ts moves t m n ∧ ∀ m' n', ChangesAt w ts moves t m' n' → m' = m ∧ n' = n
  /-- And none touches an authority or the retired ones. -/
  authorities : ∀ t body m e s x, IsRevocation ts t body →
    Pool.AskedAt adminExec (tasks w ts) moves m t e s x →
    (tasksUpto w ts moves (m + 1)).world.ca.cas = (tasksUpto w ts moves m).world.ca.cas ∧
      (tasksUpto w ts moves (m + 1)).world.ca.caRevocations =
        (tasksUpto w ts moves m).world.ca.caRevocations

variable {w ts moves}

theorem holdersKept_upto {i j : Nat} (hij : i ≤ j) (hj : j ≤ moves.length) :
    HoldersKept (tasksUpto w ts moves i).world (tasksUpto w ts moves j).world :=
  Pool.upto_related (R := HoldersKept) .refl (fun _ _ _ => .trans)
    (fun _ _ _ _ _ => holdersKept_step) _ hij hj

theorem printedRows_upto (hw : PrintedRows w.ca) (i : Nat) :
    PrintedRows (tasksUpto w ts moves i).world.ca := by
  refine Pool.run_uses (P := TaskPrints) (J := fun w : World => PrintedRows w.ca) ?_ ?_ hw _
  · exact fun _ _ _ _ _ hs hJ h => printedRows_step hs hJ h
  · intro p hp
    obtain ⟨t, _, rfl⟩ := List.mem_map.mp hp
    exact task_prints t

theorem ProducedBy.mono {m m' o n : Nat} (h : ProducedBy w ts moves m o n) (hm : m ≤ m') :
    ProducedBy w ts moves m' o n := by
  obtain ⟨i, hi, h⟩ := h
  exact ⟨i, by omega, h⟩

/-- A certificate is linked to an order only after a request that finalizes the order stored it. -/
theorem produced_of_linked {i t o n : Nat} {e : Env} {x : Except Go.Error Unit}
    (hasked : Pool.AskedAt adminExec (tasks w ts) moves i t e
      (.inl (.acme (.setAcmeOrderCertificate o n))) x) : ProducedBy w ts moves i o n := by
  have hi : i ≤ moves.length := (List.getElem?_eq_some_iff.mp hasked.move).1.le
  obtain ⟨task, htask, hmay⟩ := taskMay_next serve_orderly hasked.next
  cases task with
  | deleteCA | deleteCertificate => cases hmay
  | call c =>
    obtain ⟨_, ⟨⟩, hfinalizes, -, k, row, ⟨⟨cert, hstore⟩, hback⟩, hrow⟩ := hmay
    obtain ⟨orderID, body, order, hrequest, hread, horder⟩ := hfinalizes
    obtain ⟨j₁, e₁, -, hask₁⟩ := task_saw hi hread
    obtain ⟨j₂, e₂, hj₂, hask₂⟩ := task_saw hi hstore
    obtain ⟨j₃, e₃, -, hask₃⟩ := task_saw hi hback
    have ho : order.id = orderID :=
      Table.key_of_get? (get?_of_selectAcmeOrder (exec_of_admin hask₁.exec))
    have hk : row.id = k :=
      Table.key_of_get? (get?_of_selectCertificate (exec_of_admin hask₃.exec))
    obtain ⟨acme, request⟩ := c
    obtain rfl : request = .finalize orderID body := hrequest
    rw [← horder, ho, ← hrow, hk]
    exact ⟨j₂, hj₂, t, e₂, acme, body, cert, htask, hask₂⟩

/-- **Orders deliver what was issued for them.** -/
theorem produced_upto {creds : Table EABCred} {i : Nat} (hi : i ≤ moves.length) {o n : Nat}
    {order : AcmeOrder}
    (ho : (tasksUpto (.empty creds) ts moves i).world.acme.orders.get? o = some order)
    (hn : order.certificateID = some n) : ProducedBy (.empty creds) ts moves i o n := by
  induction i generalizing order with
  | zero => cases ho
  | succ i ih =>
    have hi' : i ≤ moves.length := by omega
    rcases Pool.upto_asked adminExec (tasks (.empty creds) ts) hi with hs | ⟨s, x, hasked, _⟩
    · rw [show tasksUpto (.empty creds) ts moves (i + 1) = tasksUpto (.empty creds) ts moves i
        from hs] at ho
      exact (ih hi' ho hn).mono (Nat.le_succ i)
    · have hstep : _ ∨ ∃ s', s = .inl s' ∧ OrderStep moves[i].2 o s'
          ((tasksUpto (.empty creds) ts moves i).world.acme.orders.get? o)
          ((tasksUpto (.empty creds) ts moves (i + 1)).world.acme.orders.get? o) :=
        order_of_admin hasked.exec o
      have hold {r : AcmeOrder}
          (hr : (tasksUpto (.empty creds) ts moves i).world.acme.orders.get? o = some r)
          (hcert : r.certificateID = some n) : ProducedBy (.empty creds) ts moves (i + 1) o n :=
        (ih hi' hr hcert).mono (Nat.le_succ i)
      rcases hstep with heq | ⟨s', rfl, hstep⟩
      · exact hold (heq.symm.trans ho) hn
      rw [ho] at hstep
      generalize hbefore : (tasksUpto (.empty creds) ts moves i).world.acme.orders.get? o = before,
        hafter : some order = after at hstep
      cases hstep with
      | same => exact hold (hbefore.trans hafter.symm) hn
      | inserted r hc =>
        obtain rfl := Option.some.inj hafter
        cases hn
      | failed problem r hc hr =>
        obtain rfl := Option.some.inj hafter
        exact hold hbefore hn
      | claimed r hc hr =>
        obtain rfl := Option.some.inj hafter
        exact hold hbefore hn
      | completed certID r hc =>
        obtain rfl := Option.some.inj hafter
        obtain rfl : certID = n := Option.some.inj hn
        exact (produced_of_linked hasked).mono (Nat.le_succ i)

/-- Whatever changes a revocation in a revocation request is its one update, and that one finds the
certificate unrevoked. -/
theorem revocation_asked {t m n : Nat} {body : Body} (ht : IsRevocation ts t body)
    (hchange : ChangesAt w ts moves t m n) : ∃ e reason x row,
      Pool.AskedAt adminExec (tasks w ts) moves m t e (.inl (.ca (.revokeCertificate n reason))) x ∧
        (tasksUpto w ts moves m).world.ca.certificates.get? n = some row ∧
        row.status ≠ .revoked ∧ (tasksUpto w ts moves (m + 1)).world.ca.certificates.get? n =
          some (row.revoke e.now reason) := by
  obtain ⟨acme, ht⟩ := ht
  obtain ⟨e, s, x, hasked, hne⟩ := hchange
  obtain ⟨task, htask, hmay⟩ := taskMay_next serve_callRevokes hasked.next
  obtain rfl := Option.some.inj (ht.symm.trans htask)
  obtain ⟨s', rfl, hwithin, _⟩ := hmay
  have hstep := cert_step (exec_of_admin hasked.exec) n
  unfold revocation at hne
  change CertStep e n s' ((tasksUpto w ts moves m).world.ca.certificates.get? n)
    ((tasksUpto w ts moves (m + 1)).world.ca.certificates.get? n) at hstep
  generalize (tasksUpto w ts moves m).world.ca.certificates.get? n = before,
    (tasksUpto w ts moves (m + 1)).world.ca.certificates.get? n = after at hstep hne
  cases hstep with
  | same => exact absurd rfl hne
  | inserted c hc => exact absurd hwithin (by simp [Within, Stmt.effect?, Request.effects])
  | unrevoked r hc => exact absurd hwithin (by simp [Within, Stmt.effect?, Request.effects])
  | renewed p r hc => exact absurd hwithin (by simp [Within, Stmt.effect?, Request.effects])
  | revoked reason r hc hr => exact ⟨e, reason, x, r, hasked, rfl, hr, rfl⟩

/-- What a revocation rests on when it is asked for. -/
theorem warrant_asked {t m n : Nat} {body : Body} {reason : Int} {e : Env}
    {x : Except Go.Error Nat} (ht : IsRevocation ts t body)
    (hasked : Pool.AskedAt adminExec (tasks w ts) moves m t e
      (.inl (.ca (.revokeCertificate n reason))) x) :
    NoneRevoked (Prog.leftTrace (own t (tasksUpto w ts moves m).history)) ∧
      RevocationWarrant body n reason (Prog.leftTrace (own t (tasksUpto w ts moves m).history)) := by
  obtain ⟨acme, ht⟩ := ht
  obtain ⟨task, htask, hmay⟩ := taskMay_next serve_callRevokes hasked.next
  obtain rfl := Option.some.inj (ht.symm.trans htask)
  obtain ⟨_, ⟨⟩, _, hrevokes⟩ := hmay
  exact hrevokes body rfl n reason rfl

omit [Go.Runtime] in
/-- A signature that verifies was made with the key. -/
theorem signer_of_verify {j : ParsedJWS} {key : Pki.PublicKey} (h : j.verify key = .ok ()) :
    j.signer = key := by
  unfold ParsedJWS.verify at h
  split at h
  next heq => exact heq
  next => cases h

/-- An account that the warrant names may still revoke when the request does. -/
theorem accountMayRevoke {creds : Table EABCred} {t m n : Nat} (hm : m ≤ moves.length)
    {j : ParsedJWS} {a : AcmeAccount}
    (ha : Resolved j.keyID a
      (Prog.leftTrace (own t (tasksUpto (.empty creds) ts moves m).history)))
    (hverify : j.verify a.jwk = .ok ())
    (hshares : SharesCredential a n
      (Prog.leftTrace (own t (tasksUpto (.empty creds) ts moves m).history))) :
    AccountMayRevoke (.empty creds) ts moves m j n := by
  obtain ⟨⟨id, hid, hread⟩, -⟩ := ha
  obtain ⟨order, owner, horder, howner, heab⟩ := hshares
  obtain ⟨i₁, e₁, hi₁, hask₁⟩ := task_saw hm hread
  obtain ⟨i₂, e₂, hi₂, hask₂⟩ := task_saw hm horder
  obtain ⟨i₃, e₃, hi₃, hask₃⟩ := task_saw hm howner
  have hsigner := get?_of_selectAcmeAccount (exec_of_admin hask₁.exec)
  have howned := get?_of_selectAcmeAccount (exec_of_admin hask₃.exec)
  obtain ⟨_, hx, _⟩ := exec_acme (exec_of_admin hask₂.exec)
  have hlast := Except.ok.inj (Fault.apply_ok hx.symm).1
  obtain ⟨hmem, hlinked⟩ := List.mem_filter.mp (List.mem_of_getLast? hlast)
  have hget : (tasksUpto (.empty creds) ts moves i₂).world.acme.orders.get? order.id = some order :=
    Table.get?_of_mem hmem
  have hproduced := produced_upto (hi₂.le.trans hm) hget (beq_iff_eq.mp hlinked)
  -- what was read at those moments still stands
  obtain ⟨order', horder', haccount⟩ := (rowsKept_upto hi₂.le hm).orders _ _ hget
  obtain ⟨a', ha', heab'⟩ := (rowsKept_upto hi₁.le hm).accounts _ _ hsigner
  obtain ⟨a'', ha'', hjwk⟩ := (holdersKept_upto hi₁.le hm).accounts _ _ hsigner
  obtain rfl := Option.some.inj (ha'.symm.trans ha'')
  obtain ⟨owner', howner', howns⟩ := (rowsKept_upto hi₃.le hm).accounts _ _ howned
  refine ⟨id, a', order.id, order', owner', hid, ha', ?_, horder', ?_, ?_, hproduced.mono hi₂.le⟩
  · rw [hjwk]
    exact signer_of_verify hverify
  · rw [haccount]
    exact howner'
  · rw [howns, heab, heab']

/-- **A revocation request changes nothing but what it may.** -/
theorem warranted_of_changes {creds : Table EABCred} {t m n : Nat} {body : Body}
    (ht : IsRevocation ts t body) (hchange : ChangesAt (.empty creds) ts moves t m n) :
    Warranted (.empty creds) ts moves m body n := by
  obtain ⟨e, reason, x, row, hasked, hrow, hstatus, hafter⟩ := revocation_asked ht hchange
  have hm : m ≤ moves.length := (List.getElem?_eq_some_iff.mp hasked.move).1.le
  obtain ⟨-, j, leaf, requested, serial, found, signer, hparse, hdecoded, rfl, hfound, hid, hprint,
    hsigned, hentitled⟩ := warrant_asked ht hasked
  have hleaf : row.certPEM = some leaf := by
    obtain ⟨i, e', hi, hask⟩ := task_saw hm hfound
    obtain ⟨_, hx, _⟩ := exec_ca (exec_of_admin hask.exec)
    have hpick := Except.ok.inj (Fault.apply_ok hx.symm).1
    have hget : (tasksUpto (.empty creds) ts moves i).world.ca.certificates.get? found.id =
        some found :=
      Table.get?_of_mem (List.mem_filter.mp (List.mem_of_getElem? hpick)).1
    rw [hid] at hget
    have hkept := (holdersKept_upto hi.le hm).certificates.related hget hrow
    have hrows : PrintedRows (tasksUpto (.empty creds) ts moves m).world.ca :=
      printedRows_upto (fun _ hr => absurd hr List.not_mem_nil) m
    obtain ⟨c, hc, hprinted⟩ := hrows row (Table.mem_of_get? hrow)
    have hsame : fingerprintSHA256 c = fingerprintSHA256 leaf := by
      rw [← hprinted, ← hprint]
      exact hkept
    rw [hc, Option.some.inj hsame]
  refine ⟨j, leaf, requested, row, e.now, hparse, hdecoded, hrow, hleaf, hstatus, hafter, ?_⟩
  cases signer with
  | key k =>
    obtain ⟨hnone, key, rfl, hverify⟩ := hsigned
    refine .inl ⟨hnone, ?_⟩
    rw [signer_of_verify hverify]
    exact Option.some.inj hentitled
  | account a =>
    obtain ⟨hkid, hresolved, hverify⟩ := hsigned
    exact .inr ⟨hkid, accountMayRevoke hm hresolved hverify hentitled⟩

/-- Two changes of one revocation request are one. -/
theorem change_unique {t m n m' n' : Nat} {body : Body} (ht : IsRevocation ts t body)
    (h : ChangesAt w ts moves t m n) (h' : ChangesAt w ts moves t m' n') : m' = m ∧ n' = n := by
  obtain ⟨e, reason, x, row, hasked, -⟩ := revocation_asked ht h
  obtain ⟨e', reason', x', row', hasked', -⟩ := revocation_asked ht h'
  have hfirst {i k : Nat} {e e' : Env} {n n' : Nat} {reason reason' : Int}
      {x x' : Except Go.Error Nat}
      (hi : Pool.AskedAt adminExec (tasks w ts) moves i t e
        (.inl (.ca (.revokeCertificate n reason))) x)
      (hk : Pool.AskedAt adminExec (tasks w ts) moves k t e'
        (.inl (.ca (.revokeCertificate n' reason'))) x') : ¬ i < k := by
    intro hik
    exact (warrant_asked ht hk).1 _ (Prog.mem_leftTrace.mpr (hi.mem_own hik)) n reason rfl
  obtain rfl : m' = m := by
    have h₁ := hfirst hasked hasked'
    have h₂ := hfirst hasked' hasked
    omega
  obtain ⟨-, hstmt⟩ := hasked.stmt_unique hasked'
  cases hstmt
  exact ⟨rfl, rfl⟩

/-- A revocation that affected a row has changed a revocation. -/
theorem changes_of_affected {t m n k : Nat} {reason : Int} {e : Env} (hk : k ≠ 0)
    (hasked : Pool.AskedAt adminExec (tasks w ts) moves m t e
      (.inl (.ca (.revokeCertificate n reason))) (.ok k)) : ChangesAt w ts moves t m n := by
  refine ⟨e, _, _, hasked, ?_⟩
  obtain ⟨_, hx, hw⟩ := exec_ca (exec_of_admin hasked.exec)
  obtain ⟨hcount, hdone⟩ := Fault.apply_ok hx.symm
  have hpos : 0 < (tasksUpto w ts moves m).world.ca.certificates.rows.countP
      (Certificate.unrevoked n) := by
    have hcount' : (tasksUpto w ts moves m).world.ca.certificates.rows.countP
      (Certificate.unrevoked n) = k := Except.ok.inj hcount
    omega
  obtain ⟨row, hmem, hunrevoked⟩ := List.countP_pos_iff.mp hpos
  have hrow := hunrevoked
  simp only [Certificate.unrevoked, Bool.and_eq_true, beq_iff_eq, bne_iff_ne, ne_eq] at hrow
  obtain ⟨hid, hstatus⟩ := hrow
  have hget : (tasksUpto w ts moves m).world.ca.certificates.get? n = some row := by
    rw [← hid]
    exact Table.get?_of_mem hmem
  have hafter : (tasksUpto w ts moves (m + 1)).world.ca.certificates.get? n =
      some (row.revoke e.now reason) := by
    have hw' : (tasksUpto w ts moves (m + 1)).world = _ := hw
    rw [hw', hdone]
    change (Pool.upto adminExec (tasks w ts) moves m).world.ca.certificates.get? n = some row at hget
    refine (Table.get?_update _ (Certificate.unrevoked n) (·.revoke e.now reason)
      (fun _ => rfl) n).trans ?_
    rw [hget, Option.map_some, if_pos hunrevoked]
  unfold revocation
  rw [hafter, hget]
  intro heq
  exact hstatus (Prod.mk.inj (Option.some.inj heq)).1.symm

/-- **Entitlement**: in every run over a new database, whatever else is requested and deleted in
between, what the revocation requests of package acme change is what they may change. -/
theorem revocations_entitled (creds : Table EABCred) (ts : List Task)
    (moves : Pool.Schedule Env) : RevocationsEntitled (.empty creds) ts moves where
  warranted := fun _ _ _ _ ht hchange => warranted_of_changes ht hchange
  single := by
    intro t body ht hdone
    obtain ⟨acme, hcall⟩ := id ht
    obtain ⟨n, reason, k, hsaw, hk⟩ := call_ended serve_callRevokes hcall hdone body rfl rfl
    obtain ⟨m, e, -, hasked⟩ := task_saw (Nat.le_refl _) hsaw
    have hchange := changes_of_affected hk hasked
    exact ⟨m, n, hchange, fun m' n' h => change_unique ht hchange h⟩
  authorities := by
    intro t body m e s x ht hasked
    obtain ⟨acme, ht⟩ := ht
    obtain ⟨task, htask, hmay⟩ := taskMay_next serve_callRevokes hasked.next
    obtain rfl := Option.some.inj (ht.symm.trans htask)
    obtain ⟨s', rfl, hwithin, _⟩ := hmay
    refine exec_ca_induction (P := fun s t t' => Within (Request.revokeCert body).effects s →
      t'.cas = t.cas ∧ t'.caRevocations = t.caRevocations) (fun _ _ _ => ⟨rfl, rfl⟩) ?_
      (exec_of_admin hasked.exec) hwithin
    intro s t _ hs
    cases s with
    | revokeCertificate n reason => exact ⟨rfl, rfl⟩
    | insertCA n => exact absurd hs (by simp [Within, Stmt.effect?, Request.effects])
    | setDefaultCA id => exact absurd hs (by simp [Within, Stmt.effect?, Request.effects])
    | setCAStatus id st => exact absurd hs (by simp [Within, Stmt.effect?, Request.effects])
    | nextCRLNumber id => exact absurd hs (by simp [Within, Stmt.effect?, Request.effects])
    | completeCA id c => exact absurd hs (by simp [Within, Stmt.effect?, Request.effects])
    | insertCertificate c => exact absurd hs (by simp [Within, Stmt.effect?, Request.effects])
    | unrevokeCertificate id => exact absurd hs (by simp [Within, Stmt.effect?, Request.effects])
    | setRenewedFrom id p => exact absurd hs (by simp [Within, Stmt.effect?, Request.effects])
    | recordCARevocation i sn r => exact absurd hs (by simp [Within, Stmt.effect?, Request.effects])
    | _ => exact ⟨rfl, rfl⟩

end Run

end Goca
