import Goca.Lib.Trace
import Goca.Server

/-!
# What each request can change

A statement either reads or has one effect that another request, or somebody outside, can notice:
a change of a table, or a signature. `Request.effects` lists the effects of each request, and
`serve_uses` proves the list: whatever the store and the host answer, a call asks nothing beyond
it. Where a law is about one effect, this is what leaves only a few requests to look into.

The footprint of a function is stated for every list of effects that has the function's own, so
that a caller can use it under its longer list.
-/

set_option autoImplicit false

namespace Goca

open Goca.Store
open Goca.Pki (PrivateKey X509)
open Interleave (Act Prog Pool)
open Interleave.Act

/-- The effects a statement can have. -/
inductive Effect
  | insertCA | setDefaultCA | setCAStatus | nextCRLNumber | completeCA
  | insertCertificate | revokeCertificate | unrevokeCertificate | setRenewedFrom
  | recordCARevocation
  | reserveSlot | releaseSlot | insertAccount | setAccountStatus | setAccountContact | touchAccount
  | insertOrder | setOrderError | claimOrder | setOrderCertificate
  | insertAuthorization | insertChallenge
  | insertNonce | consumeNonce | purgeNonces
  | signCertificate | signCRL
  deriving Repr, DecidableEq

/-- The effect of a statement; a statement without one only reads, or records an audit entry. -/
def Stmt.effect? : Stmt → Option Effect
  | .ca (.insertCA _) => some .insertCA
  | .ca (.setDefaultCA _) => some .setDefaultCA
  | .ca (.setCAStatus _ _) => some .setCAStatus
  | .ca (.nextCRLNumber _) => some .nextCRLNumber
  | .ca (.completeCA _ _) => some .completeCA
  | .ca (.insertCertificate _) => some .insertCertificate
  | .ca (.revokeCertificate _ _) => some .revokeCertificate
  | .ca (.unrevokeCertificate _) => some .unrevokeCertificate
  | .ca (.setRenewedFrom _ _) => some .setRenewedFrom
  | .ca (.recordCARevocation _ _ _) => some .recordCARevocation
  | .acme (.reserveEABAccountSlot _) => some .reserveSlot
  | .acme (.releaseEABAccountSlot _) => some .releaseSlot
  | .acme (.insertAcmeAccount _) => some .insertAccount
  | .acme (.setAcmeAccountStatus _ _) => some .setAccountStatus
  | .acme (.setAcmeAccountContact _ _) => some .setAccountContact
  | .acme (.touchAcmeAccountUsed _) => some .touchAccount
  | .acme (.insertAcmeOrder _) => some .insertOrder
  | .acme (.setAcmeOrderError _ _) => some .setOrderError
  | .acme (.claimAcmeOrderForFinalize _) => some .claimOrder
  | .acme (.setAcmeOrderCertificate _ _) => some .setOrderCertificate
  | .acme (.insertAcmeAuthorization _) => some .insertAuthorization
  | .acme (.insertAcmeChallenge _) => some .insertChallenge
  | .acme (.insertAcmeNonce _ _) => some .insertNonce
  | .acme (.consumeAcmeNonce _ _) => some .consumeNonce
  | .acme (.purgeExpiredAcmeNonces _) => some .purgeNonces
  | .host (.createCertificate _ _ _ _) => some .signCertificate
  | .host (.createRevocationList _ _ _ _ _ _) => some .signCRL
  | _ => none

/-- A statement whose effect, if it has one, is among those listed. -/
def Within (ks : List Effect) (s : Stmt) : Prop :=
  match Stmt.effect? s with
  | some k => k ∈ ks
  | none => True

/-- The effects that a request can have. -/
def Request.effects : Request → List Effect
  | .createCA _ => [.signCertificate, .insertCA, .setDefaultCA]
  | .setDefaultCA _ _ => [.setDefaultCA]
  | .setCAStatus _ _ _ => [.setCAStatus]
  | .createSubordinateCSR _ => [.insertCA]
  | .completeSubordinate _ => [.insertCA, .completeCA, .setDefaultCA]
  | .importCA _ => [.insertCA, .setDefaultCA]
  | .issue _ => [.signCertificate, .insertCertificate]
  | .renew _ _ | .renewExpiring _ _ =>
    [.signCertificate, .insertCertificate, .setRenewedFrom, .revokeCertificate]
  | .hold _ _ | .revoke _ _ _ | .bulkRevoke _ => [.revokeCertificate]
  | .release _ _ => [.unrevokeCertificate]
  | .revokeCA _ _ _ _ _ => [.setCAStatus, .revokeCertificate, .recordCARevocation]
  | .generateCRL _ _ => [.nextCRLNumber, .signCRL]
  | .newNonce => [.insertNonce]
  | .purgeNonces => [.purgeNonces]
  | .newAccount _ => [.consumeNonce, .touchAccount, .reserveSlot, .insertAccount, .releaseSlot]
  | .getAccount _ _ => [.consumeNonce, .touchAccount, .setAccountContact, .setAccountStatus]
  | .newOrder _ =>
    [.consumeNonce, .touchAccount, .insertOrder, .insertAuthorization, .insertChallenge]
  | .finalize _ _ => [.consumeNonce, .touchAccount, .setOrderError, .claimOrder, .signCertificate,
      .insertCertificate, .setOrderCertificate]
  | .getOrder _ _ | .getAuthorization _ _ | .getChallenge _ _ | .getCertificatePEM _ _ =>
    [.consumeNonce, .touchAccount]
  | .revokeCert _ => [.consumeNonce, .revokeCertificate]

theorem Within.mono {ks ks' : List Effect} (h : ks ⊆ ks') {s : Stmt} (hs : Within ks s) :
    Within ks' s := by
  unfold Within at *
  cases hk : Stmt.effect? s with
  | none => exact trivial
  | some k =>
    rw [hk] at hs
    exact h hs

/-- What only reads is within every list. -/
theorem within_nil {ks : List Effect} (s : Stmt) (hs : Within [] s) : Within ks s :=
  hs.mono (List.nil_subset ks)

/-- A statement is within its own effect. -/
theorem within_self {k : Effect} {s : Stmt} (h : Stmt.effect? s = some k) : Within [k] s := by
  unfold Within
  rw [h]
  exact List.mem_singleton_self k

/-- What succeeds with another error succeeds. -/
theorem mapError_ok {ε ε' α : Type} {f : ε → ε'} {r : Except ε α} {a : α}
    (h : r.mapError f = .ok a) : r = .ok a := by
  cases r with
  | ok b => cases h; rfl
  | error e => cases h

/-! ## Single statements -/

section Leaves

variable {ε : Type} {P : Stmt → Prop}

theorem ca_uses {s : CaStmt} (h : P (.ca s)) : (ca s).Uses P := .ask h fun _ => .pure _

theorem acme_uses {s : AcmeStmt} (h : P (.acme s)) : (acme s).Uses P := .ask h fun _ => .pure _

theorem host_uses {s : HostStmt} (h : P (.host s)) : (host s : Handler ε s.Res).Uses P :=
  .ask h fun _ => .pure _

theorem diverge_uses {α : Type} (h : P (.host .diverge)) : (diverge : Handler ε α).Uses P :=
  .ask h fun x => nomatch x

theorem hostCall_uses {α : Type} {x : Handler Go.Error (Except Go.Error α)} (h : x.Uses P) :
    (Pki.hostCall x).Uses P := h.mapResult _

end Leaves

variable {ks : List Effect} {ε α : Type}

theorem now_uses : (now : Handler ε Go.Time).Uses (Within ks) := host_uses trivial

/-! ## Package store -/

theorem getCA_uses (id : Nat) : (getCA id).Uses (Within ks) := (ca_uses trivial).mapResult _

theorem getCAByRef_uses (ref : String) : (getCAByRef ref).Uses (Within ks) := by
  unfold getCAByRef
  exact uses_ite (fun _ => (ca_uses trivial).mapResult _) fun _ => (ca_uses trivial).mapResult _

theorem listCAs_uses : listCAs.Uses (Within ks) := ca_uses trivial

theorem markDefault_uses (c : CA) : (markDefault c).Uses (Within ks) := by
  unfold markDefault
  refine uses_ite (fun _ => ?_) fun _ => uses_pure c
  exact (ca_uses trivial).attempt.bind fun n => uses_pure _

theorem createCA_uses (h : .insertCA ∈ ks) (c : CA) : (Store.createCA c).Uses (Within ks) := by
  refine (markDefault_uses c).bind fun c => ?_
  exact ((ca_uses h).mapError _).bind fun id => getCA_uses id

theorem findCABySubjectKeyID_uses (ski : String) :
    (findCABySubjectKeyID ski).Uses (Within ks) := by
  unfold findCABySubjectKeyID
  exact uses_ite (fun _ => uses_throw _) fun _ => (ca_uses trivial).mapResult _

theorem getCertificate_uses (id : Nat) : (getCertificate id).Uses (Within ks) :=
  (ca_uses trivial).mapResult _

/-- The row of a certificate has the fingerprint of what it holds. -/
def Printed (c : Certificate) : Prop :=
  ∃ x, c.certPEM = some x ∧ c.fingerprint = Pki.fingerprintSHA256 x

theorem createCertificate_uses {P : Stmt → Prop} (hread : ∀ s, Within [] s → P s)
    (hinsert : ∀ c, Printed c → P (.ca (.insertCertificate c))) {c : Certificate}
    (hc : Printed c) : (createCertificate c).Uses P := by
  refine (now_uses.mono hread).bind fun t => ?_
  have hmay := hinsert _ (show Printed { c with
    createdAt := if c.createdAt = Go.Time.zero then t else c.createdAt
    profile := nz c.profile "server" } from hc)
  exact ((ca_uses hmay).mapError _).bind fun id => (getCertificate_uses id).mono hread

theorem searchCertificates_uses (f : CertFilter) : (searchCertificates f).Uses (Within ks) :=
  now_uses.bind fun _ => (ca_uses trivial).bind fun _ => (ca_uses trivial).bind fun _ =>
    uses_pure _

theorem revokeCertificate_uses {P : Stmt → Prop} {reason : Int}
    (hrevoke : ∀ id, P (.ca (.revokeCertificate id reason))) (id : Nat) :
    (revokeCertificate id reason).Uses P := (ca_uses (hrevoke id)).bind fun _ => uses_failIf _ _

theorem unrevokeCertificate_uses (h : .unrevokeCertificate ∈ ks) (id : Nat) :
    (unrevokeCertificate id).Uses (Within ks) := by
  refine ((ca_uses trivial).mapResult _).bind fun r => ?_
  exact (uses_failIf _ _).bind fun _ => (uses_failIf _ _).bind fun _ => ca_uses h

/-! ## Package pki -/

section Pki

variable [Go.Runtime]

omit [Go.Runtime] in
theorem generateKey_uses (kt : Pki.KeyType) : (Pki.generateKey kt).Uses (Within ks) :=
  hostCall_uses (host_uses trivial)

omit [Go.Runtime] in
theorem newSerial_uses : Pki.newSerial.Uses (Within ks) := hostCall_uses (host_uses trivial)

theorem pkiCreateCA_uses (h : .signCertificate ∈ ks) (p : Pki.CAParams) :
    (Pki.createCA p).Uses (Within ks) := by
  refine (uses_ofExcept _).bind fun _ => ?_
  refine ((generateKey_uses _).mapError _).bind fun key => ?_
  refine newSerial_uses.bind fun serial => ?_
  refine now_uses.bind fun t => ?_
  refine (uses_ofExcept _).bind fun _ => ?_
  exact ((hostCall_uses (host_uses h)).mapError _).bind fun cert => uses_pure _

theorem sign_uses (h : .signCertificate ∈ ks) (p : Pki.SignParams) :
    (Pki.sign p).Uses (Within ks) := by
  refine (uses_failIf _ _).bind fun _ => ?_
  refine now_uses.bind fun t₀ => ?_
  refine (uses_failIf _ _).bind fun _ => ?_
  refine newSerial_uses.bind fun serial => ?_
  refine now_uses.bind fun t => ?_
  refine (uses_failIf _ _).bind fun _ => ?_
  exact (hostCall_uses (host_uses h)).mapError _

theorem createCRL_uses (h : .signCRL ∈ ks) (p : Pki.CRLParams) :
    (Pki.createCRL p).Uses (Within ks) := by
  refine now_uses.bind fun t => ?_
  refine (uses_ofExcept _).bind fun entries => ?_
  exact (hostCall_uses (host_uses h)).mapError _

theorem generateCSR_uses (subject : Pki.Subject) (sans : Pki.SANSet) (kt : Pki.KeyType) :
    (Pki.generateCSR subject sans kt).Uses (Within ks) := by
  refine (uses_ofExcept _).bind fun _ => ?_
  refine ((generateKey_uses kt).mapError _).bind fun key => ?_
  exact (uses_ofExcept _).bind fun csr => uses_pure _

theorem createSubordinateCSR_uses (subject : Pki.Subject) (kt : Pki.KeyType) :
    (Pki.createSubordinateCSR subject kt).Uses (Within ks) := by
  refine (uses_ofExcept _).bind fun _ => ?_
  exact ((generateKey_uses kt).mapError _).bind fun key => uses_pure _

end Pki

/-! ## Package ca: authorities and issuance -/

theorem recordAudit_uses (s : Ca.Service) (actor action target detail ip : String) :
    (s.recordAudit actor action target detail ip : Handler ε Unit).Uses (Within ks) := by
  have hrow : (Ca.insertAudit (if actor = "" then "system" else actor) action target detail
      ip).Uses (Within ks) := .ask trivial fun _ => .pure _
  refine hrow.attempt.bind fun r => ?_
  exact uses_ite (fun _ => host_uses trivial) fun _ => uses_pure ()

theorem audit_uses (s : Ca.Service) (actor action target detail : String) :
    (s.audit actor action target detail : Handler ε Unit).Uses (Within ks) :=
  recordAudit_uses s actor action target detail ""

theorem uniqueSlugLoop_uses (base : String) (fuel i : Nat) (slug : String) :
    (Ca.uniqueSlugLoop base fuel i slug : Handler ε String).Uses (Within ks) := by
  induction fuel generalizing i slug with
  | zero => exact now_uses.bind fun t => uses_pure _
  | succ fuel ih =>
    refine ((ca_uses trivial).mapResult _).attempt.bind fun found => ?_
    cases found with
    | error e => exact uses_ite (fun _ => uses_pure slug) fun _ => ih _ _
    | ok c => exact ih _ _

theorem uniqueNameLoop_uses (name : String) (fuel i : Nat) (candidate : String) :
    (Ca.uniqueNameLoop name fuel i candidate : Handler ε String).Uses (Within ks) := by
  induction fuel generalizing i candidate with
  | zero => exact uses_pure name
  | succ fuel ih =>
    refine (getCAByRef_uses candidate).attempt.bind fun found => ?_
    cases found with
    | error e => exact uses_ite (fun _ => uses_pure candidate) fun _ => ih _ _
    | ok c => exact ih _ _

theorem uniqueName_uses (name : String) :
    (Ca.uniqueName name : Handler ε String).Uses (Within ks) := uniqueNameLoop_uses name 98 2 name

theorem checkCanIssue_uses (c : CA) : (Ca.checkCanIssue c).Uses (Within ks) :=
  now_uses.bind fun _ => uses_ofExcept _

theorem issueObstacles_uses (cas : List CA) :
    (Ca.issueObstacles cas : Handler ε (List String)).Uses (Within ks) := by
  induction cas with
  | nil => exact uses_pure []
  | cons c rest ih =>
    exact (checkCanIssue_uses c).attempt.bind fun r => ih.bind fun more => uses_pure _

theorem noIssuerError_uses (ref : String) :
    (Ca.noIssuerError ref : Handler ε Go.Error).Uses (Within ks) := by
  refine uses_ite (fun _ => uses_pure _) fun _ => ?_
  refine listCAs_uses.attempt.bind fun all => ?_
  match all with
  | .error _ => exact uses_pure _
  | .ok [] => exact uses_pure _
  | .ok (_ :: _) => exact (issueObstacles_uses _).bind fun reasons => uses_pure _

theorem loadParent_uses (ref : String) : (Ca.loadParent ref).Uses (Within ks) := by
  refine uses_ite (fun _ => ?_) fun _ => uses_pure none
  refine ((getCAByRef_uses _).mapError _).bind fun parent => ?_
  exact (uses_ofExcept _).bind fun cert => (uses_ofExcept _).bind fun key => uses_pure _

theorem makeDefaultIf_uses (h : .setDefaultCA ∈ ks) (wanted : Bool) (c : CA) :
    (Ca.makeDefaultIf wanted c).Uses (Within ks) := by
  refine uses_ite (fun _ => ?_) fun _ => uses_pure c
  exact (ca_uses h).bind fun _ => uses_pure _

theorem caChainFrom_uses (fuel : Nat) (cur : CA) : (Ca.caChainFrom fuel cur).Uses (Within ks) := by
  induction fuel generalizing cur with
  | zero => exact uses_pure []
  | succ fuel ih =>
    refine (uses_ofExcept _).bind fun cert => ?_
    split
    · exact uses_pure _
    · refine (getCA_uses _).attempt.bind fun parent => ?_
      cases parent with
      | error e => exact uses_pure _
      | ok parent => exact (ih parent).bind fun rest => uses_pure _

theorem caChain_uses (c : CA) : (Ca.caChain c).Uses (Within ks) := caChainFrom_uses 16 c

theorem certChainPEM_uses (c : Certificate) : (Ca.certChainPEM c).Uses (Within ks) :=
  (getCA_uses _).bind fun issuer => (caChain_uses issuer).bind fun _ => uses_pure _

theorem loadIssuer_uses (ref : String) : (Ca.loadIssuer ref).Uses (Within ks) := by
  refine (getCAByRef_uses ref).attempt.bind fun found => ?_
  cases found with
  | error e =>
    refine uses_ite (fun _ => ?_) fun _ => uses_throw e
    exact (noIssuerError_uses ref).bind fun e => uses_throw e
  | ok c =>
    refine (checkCanIssue_uses c).bind fun _ => ?_
    exact (uses_ofExcept _).bind fun cert => (uses_ofExcept _).bind fun key => uses_pure _

section Ca

variable [Go.Runtime] (s : Ca.Service)

theorem uniqueSlug_uses (name : String) : (Ca.uniqueSlug name : Handler ε String).Uses (Within ks) :=
  uniqueSlugLoop_uses _ _ _ _

theorem serviceCreateCA_uses (h₁ : .signCertificate ∈ ks) (h₂ : .insertCA ∈ ks)
    (h₃ : .setDefaultCA ∈ ks) (i : Ca.CreateCAInput) : (s.createCA i).Uses (Within ks) := by
  refine (uses_failIf _ _).bind fun _ => ?_
  refine (uses_ofExcept _).bind fun _ => ?_
  refine (uses_ofExcept _).bind fun kt => ?_
  refine (loadParent_uses _).bind fun parent => ?_
  refine (pkiCreateCA_uses h₁ _).bind fun res => ?_
  refine (uniqueSlug_uses _).bind fun slug => ?_
  refine (createCA_uses h₂ _).bind fun saved => ?_
  refine (makeDefaultIf_uses h₃ _ saved).bind fun saved => ?_
  exact (audit_uses s _ _ _ _).bind fun _ => uses_pure saved

omit [Go.Runtime] in
theorem setDefaultCA_uses (h : .setDefaultCA ∈ ks) (id : Nat) (actor : String) :
    (s.setDefaultCA id actor).Uses (Within ks) :=
  Uses.bind (ca_uses h) fun _ => audit_uses s _ _ _ _

omit [Go.Runtime] in
theorem setCAStatus_uses (h : .setCAStatus ∈ ks) (id : Nat) (status : CAStatus)
    (actor : String) : (s.setCAStatus id status actor).Uses (Within ks) :=
  (uses_failIf _ _).bind fun _ => Uses.bind (ca_uses h) fun _ => audit_uses s _ _ _ _

theorem keyMaterial_uses (i : Ca.IssueInput) : (s.keyMaterial i).Uses (Within ks) := by
  unfold Ca.Service.keyMaterial
  split
  · exact uses_ofExcept _
  · refine (uses_ofExcept _).bind fun _ => ?_
    refine (uses_ofExcept _).bind fun kt => ?_
    refine (uses_ofExcept _).bind fun sans => ?_
    exact (generateCSR_uses _ _ _).bind fun r => uses_pure _
  · exact uses_throw _

/-- Issuing asks for a signature, and stores what was signed under its own fingerprint. -/
theorem issue_uses {P : Stmt → Prop} (hsign : ∀ s, Within [.signCertificate] s → P s)
    (hinsert : ∀ c, Printed c → P (.ca (.insertCertificate c))) (i : Ca.IssueInput) :
    (s.issue i).Uses P := by
  have hread (s : Stmt) (hs : Within [] s) : P s := hsign s (within_nil s hs)
  refine ((loadIssuer_uses _).mono hread).bind fun issuer => ?_
  refine (uses_ofExcept _).bind fun profile => ?_
  refine (uses_failIf _ _).bind fun _ => ?_
  refine ((keyMaterial_uses s i).mono hread).bind fun m => ?_
  refine (uses_ofExcept _).bind fun sanOverride => ?_
  refine ((sign_uses (List.mem_singleton_self _) _).mono hsign).bind fun cert => ?_
  refine (createCertificate_uses hread hinsert ⟨cert, rfl, rfl⟩).bind fun saved => ?_
  refine ((audit_uses s _ _ _ _).mono hread).bind fun _ => ?_
  exact ((caChain_uses _).mono hread).attempt.bind fun chain => uses_pure _

omit [Go.Runtime] in
theorem certEntries_uses (certs : List Certificate) :
    (Ca.certEntries certs : Handler ε (List Pki.RevokedEntry)).Uses (Within ks) := by
  induction certs with
  | nil => exact uses_pure []
  | cons r rest ih => exact now_uses.bind fun t => ih.bind fun entries => uses_pure _

omit [Go.Runtime] in
theorem revoke_uses {P : Stmt → Prop} {reason : Int} (hread : ∀ s, Within [] s → P s)
    (hrevoke : ∀ id, P (.ca (.revokeCertificate id reason))) (id : Nat) (actor : String) :
    (s.revoke id reason actor).Uses P :=
  ((getCertificate_uses id).mono hread).bind fun _ =>
    (revokeCertificate_uses hrevoke id).bind fun _ => (audit_uses s _ _ _ _).mono hread

theorem generateCRL_uses (h₁ : .nextCRLNumber ∈ ks) (h₂ : .signCRL ∈ ks) (caID : Nat)
    (actor : String) : (s.generateCRL caID actor).Uses (Within ks) := by
  refine (getCA_uses caID).bind fun rec => ?_
  refine (uses_failIf _ _).bind fun _ => ?_
  refine (uses_failIf _ _).bind fun _ => ?_
  refine (uses_ofExcept _).bind fun issuerCert => ?_
  refine (uses_ofExcept _).bind fun issuerKey => ?_
  refine (ca_uses trivial).bind fun revoked => ?_
  refine (certEntries_uses revoked).bind fun entries => ?_
  refine (ca_uses trivial).bind fun caRevs => ?_
  refine ((ca_uses h₁).mapResult _).bind fun number => ?_
  refine (createCRL_uses h₂ _).bind fun crl => ?_
  exact (audit_uses s _ _ _ _).bind fun _ => uses_pure crl

/-! ## Package ca: renewal and revocation -/

omit [Go.Runtime] in
theorem renewalIssuer_uses (i : Ca.RenewInput) (old : Certificate) :
    (Ca.renewalIssuer i old).Uses (Within ks) := by
  refine uses_ite (fun _ => uses_pure _) fun _ => ?_
  refine (getCA_uses _).attempt.bind fun issuer => ?_
  cases issuer with
  | error e => exact uses_pure _
  | ok issuer => exact (checkCanIssue_uses issuer).attempt.bind fun able => uses_pure _

omit [Go.Runtime] in
theorem revokeOldIf_uses {P : Stmt → Prop}
    (hrevoke : ∀ id, P (.ca (.revokeCertificate id Pki.reasonSuperseded))) (wanted : Bool)
    (old new : Certificate) : (Ca.revokeOldIf wanted old new).Uses P := by
  refine uses_ite (fun _ => ?_) fun _ => uses_pure false
  exact ((revokeCertificate_uses hrevoke _).mapError _).bind fun _ => uses_pure true

section Renewals

variable {P : Stmt → Prop} (hreplace : ∀ s, Within [.signCertificate, .setRenewedFrom] s → P s)
  (hinsert : ∀ c, Printed c → P (.ca (.insertCertificate c)))
  (hrevoke : ∀ id, P (.ca (.revokeCertificate id Pki.reasonSuperseded)))

include hreplace hinsert hrevoke

theorem renew_uses (id : Nat) (i : Ca.RenewInput) : (s.renew id i).Uses P := by
  have hread (s : Stmt) (hs : Within [] s) : P s := hreplace s (within_nil s hs)
  have hsign (s : Stmt) (hs : Within [.signCertificate] s) : P s :=
    hreplace s (hs.mono (by decide))
  refine ((getCertificate_uses id).mono hread).bind fun old => ?_
  refine ((renewalIssuer_uses i old).mono hread).bind fun caRef => ?_
  refine (uses_ofExcept _).bind fun subject => ?_
  refine (uses_ofExcept _).bind fun request => ?_
  refine (issue_uses s hsign hinsert request).bind fun res => ?_
  refine (ca_uses (hreplace _ (List.mem_of_elem_eq_true rfl))).bind fun _ => ?_
  refine (revokeOldIf_uses hrevoke _ _ _).bind fun revokedOld => ?_
  exact ((audit_uses s _ _ _ _).mono hread).bind fun _ => uses_pure _

theorem renewEach_uses (i : Ca.RenewInput) (certs : List Certificate) :
    (s.renewEach i certs : Handler ε (List Ca.RenewResult × List Go.Error)).Uses P := by
  induction certs with
  | nil => exact uses_pure _
  | cons c rest ih =>
    exact (renew_uses s hreplace hinsert hrevoke c.id i).attempt.bind fun res =>
      ih.bind fun r => uses_pure _

theorem renewExpiring_uses (withinDays : Int) (i : Ca.RenewInput) :
    (s.renewExpiring withinDays i : Handler ε (List Ca.RenewResult × List Go.Error)).Uses P := by
  have hread (s : Stmt) (hs : Within [] s) : P s := hreplace s (within_nil s hs)
  refine ((searchCertificates_uses _).mono hread).attempt.bind fun due => ?_
  cases due with
  | error e => exact uses_pure _
  | ok due => exact renewEach_uses s hreplace hinsert hrevoke i due.1

end Renewals

omit [Go.Runtime] in
theorem hold_uses {P : Stmt → Prop} (hread : ∀ s, Within [] s → P s)
    (hrevoke : ∀ id, P (.ca (.revokeCertificate id Pki.reasonCertificateHold))) (id : Nat)
    (actor : String) : (s.hold id actor).Uses P := by
  refine ((getCertificate_uses id).mono hread).bind fun c => ?_
  refine (uses_failIf _ _).bind fun _ => (uses_failIf _ _).bind fun _ => ?_
  exact (revokeCertificate_uses hrevoke _).bind fun _ => (audit_uses s _ _ _ _).mono hread

omit [Go.Runtime] in
theorem release_uses (h : .unrevokeCertificate ∈ ks) (id : Nat) (actor : String) :
    (s.release id actor).Uses (Within ks) :=
  (getCertificate_uses id).bind fun _ => (unrevokeCertificate_uses h id).bind fun _ =>
    audit_uses s _ _ _ _

omit [Go.Runtime] in
theorem targetsByID_uses (ids : List Nat) : (Ca.targetsByID ids).Uses (Within ks) := by
  induction ids with
  | nil => exact uses_pure []
  | cons id rest ih =>
    exact ((getCertificate_uses id).mapError _).bind fun c => ih.bind fun more => uses_pure _

section Revocations

variable {P : Stmt → Prop} {reason : Int}

omit [Go.Runtime] in
theorem revokeEach_uses (hrevoke : ∀ id, P (.ca (.revokeCertificate id reason)))
    (certs : List Certificate) (out : Ca.BulkRevokeResult) :
    (Ca.revokeEach reason certs out : Handler ε Ca.BulkRevokeResult).Uses P := by
  induction certs generalizing out with
  | nil => exact uses_pure out
  | cons c rest ih =>
    refine uses_ite (fun _ => ih _) fun _ => ?_
    exact (revokeCertificate_uses hrevoke _).attempt.bind fun r => ih _

omit [Go.Runtime] in
theorem bulkRevoke_uses (hread : ∀ s, Within [] s → P s) (i : Ca.BulkRevokeInput)
    (hrevoke : ∀ id, P (.ca (.revokeCertificate id i.reason))) : (s.bulkRevoke i).Uses P := by
  refine ((targetsByID_uses i.ids).mono hread).bind fun named => ?_
  have htargets : (Ca.targetsByFilter named i.filter).Uses P := by
    unfold Ca.targetsByFilter
    split
    · exact uses_pure _
    · exact ((searchCertificates_uses _).mono hread).bind fun r => uses_pure _
  refine htargets.bind fun targets => ?_
  refine (uses_failIf _ _).bind fun _ => ?_
  refine (revokeEach_uses hrevoke targets {}).bind fun out => ?_
  exact ((audit_uses s _ _ _ _).mono hread).bind fun _ => uses_pure out

omit [Go.Runtime] in
theorem revokeIssued_uses (hrevoke : ∀ id, P (.ca (.revokeCertificate id reason)))
    (certs : List Certificate) (out : Ca.RevokeCAResult) :
    (Ca.revokeIssued reason certs out : Handler ε Ca.RevokeCAResult).Uses P := by
  induction certs generalizing out with
  | nil => exact uses_pure out
  | cons c rest ih =>
    refine uses_ite (fun _ => ih _) fun _ => ?_
    exact (revokeCertificate_uses hrevoke _).attempt.bind fun r => ih _

omit [Go.Runtime] in
theorem retireChildren_uses {retire : Nat → Handler Go.Error Ca.RevokeCAResult}
    (hretire : ∀ id, (retire id).Uses P) (children : List CA) (out : Ca.RevokeCAResult) :
    (Ca.retireChildren retire children out : Handler ε Ca.RevokeCAResult).Uses P := by
  induction children generalizing out with
  | nil => exact uses_pure out
  | cons child rest ih => exact (hretire child.id).attempt.bind fun sub => ih _

omit [Go.Runtime] in
theorem revokeBeneath_uses (hread : ∀ s, Within [] s → P s)
    (hrevoke : ∀ id, P (.ca (.revokeCertificate id reason)))
    {retire : Nat → Handler Go.Error Ca.RevokeCAResult}
    (hretire : ∀ id, (retire id).Uses P) (id : Nat) (out : Ca.RevokeCAResult) :
    (Ca.revokeBeneath reason retire id out).Uses P := by
  refine ((searchCertificates_uses _).mono hread).bind fun certs => ?_
  refine (revokeIssued_uses hrevoke certs.1 out).bind fun out => ?_
  refine (ca_uses (hread _ trivial) : (childCAs id).Uses _).attempt.bind fun children => ?_
  cases children with
  | error e => exact uses_pure out
  | ok children => exact retireChildren_uses hretire children out

omit [Go.Runtime] in
theorem revokeInParent_uses (hread : ∀ s, Within [] s → P s)
    (hrecord : ∀ issuer serial, P (.ca (.recordCARevocation issuer serial reason))) (c : CA)
    (out : Ca.RevokeCAResult) :
    (Ca.revokeInParent reason c out : Handler ε Ca.RevokeCAResult).Uses P := by
  unfold Ca.revokeInParent
  split
  · exact uses_pure _
  · refine ((getCA_uses _).mono hread).attempt.bind fun parent => ?_
    cases parent with
    | error e => exact uses_pure out
    | ok parent =>
      refine uses_ite (fun _ => ?_) fun _ => uses_pure _
      exact (ca_uses (hrecord _ _)).attempt.bind fun r => uses_pure _

omit [Go.Runtime] in
/-- The induction is on the fuel: the descent into a subordinate is the same program with less. -/
theorem revokeCA_uses (hretire : ∀ s, Within [.setCAStatus] s → P s)
    (hrevoke : ∀ id, P (.ca (.revokeCertificate id reason)))
    (hrecord : ∀ issuer serial, P (.ca (.recordCARevocation issuer serial reason)))
    (actor : String) (fuel id : Nat) (cascade : Bool) :
    (s.revokeCA reason actor fuel id cascade).Uses P := by
  have hread (s : Stmt) (hs : Within [] s) : P s := hretire s (within_nil s hs)
  induction fuel generalizing id cascade with
  | zero => exact diverge_uses (hread _ trivial)
  | succ fuel ih =>
    refine ((getCA_uses id).mono hread).bind fun c => ?_
    refine (ca_uses (hretire _ (List.mem_singleton_self _))).bind fun _ => ?_
    have hbeneath : (if cascade then Ca.revokeBeneath reason (fun child =>
        s.revokeCA reason actor fuel child true) id { ca := c } else pure { ca := c }).Uses P := by
      refine uses_ite (fun _ => ?_) fun _ => uses_pure _
      exact revokeBeneath_uses hread hrevoke (fun child => ih child true) id _
    refine hbeneath.bind fun out => ?_
    refine (revokeInParent_uses hread hrecord c out).bind fun out => ?_
    exact ((audit_uses s _ _ _ _).mono hread).bind fun _ => uses_pure out

end Revocations

/-! ## Package ca: external authorities -/

theorem serviceCreateSubordinateCSR_uses (h : .insertCA ∈ ks) (i : Ca.SubordinateCSRInput) :
    (s.createSubordinateCSR i).Uses (Within ks) := by
  refine (uses_ofExcept _).bind fun _ => ?_
  refine (uses_ofExcept _).bind fun kt => ?_
  have hparent : (Ca.subordinateParent i.parentRef).Uses (Within ks) := by
    refine uses_ite (fun _ => ?_) fun _ => uses_pure none
    exact ((getCAByRef_uses _).mapError _).bind fun parent => uses_pure _
  refine hparent.bind fun parentID => ?_
  refine (createSubordinateCSR_uses _ _).bind fun r => ?_
  refine (uniqueSlug_uses _).bind fun slug => ?_
  refine (createCA_uses h _).bind fun saved => ?_
  exact (audit_uses s _ _ _ _).bind fun _ => uses_pure _

omit [Go.Runtime] in
theorem findIssuerID_uses (cert : X509) :
    (Ca.findIssuerID cert : Handler ε (Option Nat)).Uses (Within ks) := by
  refine (findCABySubjectKeyID_uses _).attempt.bind fun byKey => ?_
  split
  · exact uses_pure _
  · refine ((ca_uses trivial).mapResult _).attempt.bind fun bySubject => ?_
    split
    · exact uses_pure _
    · refine listCAs_uses.attempt.bind fun all => ?_
      cases all with
      | error e => exact uses_pure none
      | ok all => exact uses_pure _

theorem importAnchor_uses (h : .insertCA ∈ ks) (actor : String) (anchor : X509) :
    (s.importAnchor actor anchor).Uses (Within ks) := by
  refine ((ca_uses trivial).mapResult _).attempt.bind fun known => ?_
  cases known with
  | ok c => exact uses_pure ()
  | error e =>
    refine uses_ite (fun _ => uses_pure ()) fun _ => ?_
    refine (findIssuerID_uses anchor).bind fun parentID => ?_
    refine (uniqueName_uses _).bind fun unique => ?_
    refine (uniqueSlug_uses _).bind fun slug => ?_
    exact ((createCA_uses h _).mapError _).bind fun _ => audit_uses s _ _ _ _

theorem importAnchors_uses (h : .insertCA ∈ ks) (actor : String) (anchors : List X509) :
    (s.importAnchors actor anchors).Uses (Within ks) := by
  induction anchors with
  | nil => exact uses_pure ()
  | cons anchor rest ih => exact (importAnchor_uses s h actor anchor).bind fun _ => ih

theorem linkIssuer_uses (h : .insertCA ∈ ks) (cert : X509) (chainPEM : Pki.PemText)
    (actor : String) : (s.linkIssuer cert chainPEM actor).Uses (Within ks) := by
  refine uses_ite (fun _ => uses_pure none) fun _ => ?_
  refine (findIssuerID_uses cert).bind fun stored => ?_
  cases stored with
  | some id => exact uses_pure _
  | none =>
    refine uses_ite (fun _ => uses_pure none) fun _ => ?_
    refine (uses_ofExcept _).bind fun chain => ?_
    exact (importAnchors_uses s h actor _).bind fun _ => findIssuerID_uses cert

omit [Go.Runtime] in
theorem validateNow_uses (cert : X509) : (Ca.validateNow cert).Uses (Within ks) :=
  now_uses.bind fun _ => uses_ofExcept _

theorem completeSubordinate_uses (h₁ : .insertCA ∈ ks) (h₂ : .completeCA ∈ ks)
    (h₃ : .setDefaultCA ∈ ks) (i : Ca.CompleteSubordinateInput) :
    (s.completeSubordinate i).Uses (Within ks) := by
  refine ((getCAByRef_uses _).mapError _).bind fun rec => ?_
  refine (uses_failIf _ _).bind fun _ => (uses_failIf _ _).bind fun _ => ?_
  refine (uses_ofExcept _).bind fun lead => ?_
  refine (validateNow_uses _).bind fun _ => ?_
  refine (uses_ofExcept _).bind fun key => (uses_ofExcept _).bind fun _ => ?_
  refine (linkIssuer_uses s h₁ _ _ _).bind fun parentID => ?_
  refine ((ca_uses h₂).mapResult _).bind fun _ => ?_
  refine uses_ite (fun _ => (ca_uses h₃).bind fun _ => ?_) fun _ => ?_
  · exact (audit_uses s _ _ _ _).bind fun _ => getCA_uses rec.id
  · exact (audit_uses s _ _ _ _).bind fun _ => getCA_uses rec.id

theorem importCA_uses (h₁ : .insertCA ∈ ks) (h₂ : .setDefaultCA ∈ ks) (i : Ca.ImportCAInput) :
    (s.importCA i).Uses (Within ks) := by
  refine (uses_failIf _ _).bind fun _ => ?_
  refine (uses_ofExcept _).bind fun lead => ?_
  refine (validateNow_uses _).bind fun _ => ?_
  refine ((ca_uses trivial).mapResult _).attempt.bind fun existing => ?_
  refine (uses_ofExcept _).bind fun _ => (uses_ofExcept _).bind fun key => ?_
  refine (linkIssuer_uses s h₁ _ _ _).bind fun parentID => ?_
  refine (uniqueName_uses _).bind fun unique => ?_
  refine (uniqueSlug_uses _).bind fun slug => ?_
  refine (createCA_uses h₁ _).bind fun saved => ?_
  refine (uses_failIf _ _).bind fun _ => ?_
  refine (makeDefaultIf_uses h₂ _ saved).bind fun saved => ?_
  exact (audit_uses s _ _ _ _).bind fun _ => uses_pure saved

end Ca

/-! ## Package acme -/

section Acme

open Goca.Acme (Problem)

theorem orInternal_uses {P : Stmt → Prop} {x : Handler Go.Error α} (hx : x.Uses P) :
    (Acme.orInternal x).Uses P := hx.mapError _

theorem randomToken_uses : Acme.randomToken.Uses (Within ks) := hostCall_uses (host_uses trivial)

theorem consumeNonce_uses (h : .consumeNonce ∈ ks) (n : String) :
    (Acme.consumeNonce n : Handler ε Bool).Uses (Within ks) := by
  refine uses_ite (fun _ => uses_pure false) fun _ => ?_
  refine now_uses.bind fun _ => ?_
  exact ((acme_uses h).mapResult _).attempt.bind fun r => uses_pure _

theorem checkNonce_uses (h : .consumeNonce ∈ ks) (j : Acme.ParsedJWS) :
    (Acme.checkNonce j).Uses (Within ks) :=
  (consumeNonce_uses h j.nonce).bind fun _ => uses_failIf _ _

theorem resolveAccount_uses (kid : String) : (Acme.resolveAccount kid).Uses (Within ks) := by
  unfold Acme.resolveAccount
  split
  · exact uses_throw _
  · refine (((acme_uses trivial).mapResult _).mapError _).bind fun a => ?_
    exact (uses_failIf _ _).bind fun _ => uses_pure a

theorem authenticate_uses (h₁ : .consumeNonce ∈ ks) (h₂ : .touchAccount ∈ ks) (body : Acme.Body)
    (expectedURL : String) : (Acme.authenticate body expectedURL).Uses (Within ks) := by
  refine (uses_ofExcept _).bind fun j => ?_
  refine (uses_ofExcept _).bind fun _ => ?_
  refine (checkNonce_uses h₁ j).bind fun _ => ?_
  refine (uses_failIf _ _).bind fun _ => ?_
  refine (resolveAccount_uses _).bind fun account => ?_
  refine (uses_ofExcept _).bind fun _ => ?_
  exact (acme_uses h₂).attempt.bind fun _ => uses_pure _

theorem newNonce_uses (h : .insertNonce ∈ ks) : Acme.newNonce.Uses (Within ks) :=
  randomToken_uses.bind fun n => now_uses.bind fun _ => (acme_uses h).bind fun _ => uses_pure n

theorem purgeNonces_uses (h : .purgeNonces ∈ ks) : Acme.purgeNonces.Uses (Within ks) :=
  now_uses.bind fun _ => acme_uses h

variable [Go.Runtime] (s : Acme.Service)

omit [Go.Runtime] in
theorem rejectAccount_uses (keyID reason : String) :
    (s.rejectAccount keyID reason : Handler Problem α).Uses (Within ks) :=
  (recordAudit_uses s.caSvc _ _ _ _ _).bind fun _ => uses_throw _

omit [Go.Runtime] in
theorem activeCred_uses (account : AcmeAccount) : (s.activeCred account).Uses (Within ks) := by
  refine (orInternal_uses ((acme_uses trivial).mapResult _)).bind fun cred => ?_
  refine uses_ite (fun _ => ?_) fun _ => uses_pure cred
  exact (recordAudit_uses s.caSvc _ _ _ _ _).bind fun _ => uses_throw _

omit [Go.Runtime] in
theorem verifyEAB_uses (eab : Acme.EabText) (outerURL : String) (jwk : Pki.PublicKey) :
    (Acme.verifyEAB eab outerURL jwk).Uses (Within ks) := by
  refine (uses_ofExcept _).bind fun j => ?_
  refine ((acme_uses trivial).mapResult _).attempt.bind fun found => ?_
  cases found with
  | error e => exact uses_throw _
  | ok cred => exact (uses_ofExcept _).bind fun _ => uses_pure _

omit [Go.Runtime] in
theorem bindingCred_uses (req : Acme.NewAccountRequest) (url : String) (jwk : Pki.PublicKey) :
    (s.bindingCred req url jwk).Uses (Within ks) := by
  refine (verifyEAB_uses _ _ _).attempt.bind fun bound => ?_
  match bound with
  | .error (keyID, e) => exact rejectAccount_uses s keyID e.text
  | .ok (keyID, cred) =>
    refine now_uses.bind fun t => ?_
    exact uses_ite (fun _ => uses_pure _) fun _ => rejectAccount_uses s keyID _

omit [Go.Runtime] in
theorem register_uses (h₁ : .reserveSlot ∈ ks) (h₂ : .insertAccount ∈ ks)
    (h₃ : .releaseSlot ∈ ks) (keyID : String) (cred : EABCred) (jwk : Pki.PublicKey)
    (contact : List String) : (s.register keyID cred jwk contact).Uses (Within ks) := by
  refine (orInternal_uses ((acme_uses h₁).mapResult _)).bind fun reserved => ?_
  refine uses_ite (fun _ => rejectAccount_uses s keyID _) fun _ => ?_
  have hcreate (a : AcmeAccount) : (createAcmeAccount a).Uses (Within ks) :=
    (acme_uses h₂).bind fun id => (acme_uses trivial).mapResult _
  refine (hcreate _).attempt.bind fun created => ?_
  cases created with
  | error e => exact (acme_uses h₃).attempt.bind fun _ => uses_throw _
  | ok account => exact (recordAudit_uses s.caSvc _ _ _ _ _).bind fun _ => uses_pure _

theorem newAccount_uses (h₁ : .consumeNonce ∈ ks) (h₂ : .touchAccount ∈ ks)
    (h₃ : .reserveSlot ∈ ks) (h₄ : .insertAccount ∈ ks) (h₅ : .releaseSlot ∈ ks)
    (body : Acme.Body) : (s.newAccount body).Uses (Within ks) := by
  refine (uses_ofExcept _).bind fun j => (uses_ofExcept _).bind fun _ => ?_
  refine (checkNonce_uses h₁ j).bind fun _ => ?_
  refine (uses_ofExcept _).bind fun jwk => (uses_ofExcept _).bind fun req => ?_
  refine ((acme_uses trivial).mapResult _).attempt.bind fun existing => ?_
  cases existing with
  | ok account =>
    refine (uses_failIf _ _).bind fun _ => ?_
    exact (acme_uses h₂).attempt.bind fun _ => uses_pure _
  | error e =>
    refine (uses_failIf _ _).bind fun _ => (uses_failIf _ _).bind fun _ => ?_
    refine (uses_ofExcept _).bind fun _ => ?_
    exact (bindingCred_uses s req j.url jwk).bind fun r => register_uses s h₃ h₄ h₅ _ _ _ _

omit [Go.Runtime] in
theorem updateContact_uses (h : .setAccountContact ∈ ks) (a : AcmeAccount)
    (contact : Option (List String)) : (Acme.updateContact a contact).Uses (Within ks) := by
  cases contact with
  | none => exact uses_pure a
  | some contact => exact (orInternal_uses (acme_uses h)).bind fun _ => uses_pure _

theorem getAccount_uses (h₁ : .consumeNonce ∈ ks) (h₂ : .touchAccount ∈ ks)
    (h₃ : .setAccountContact ∈ ks) (h₄ : .setAccountStatus ∈ ks) (accountID : Nat)
    (body : Acme.Body) : (s.getAccount accountID body).Uses (Within ks) := by
  refine (authenticate_uses h₁ h₂ _ _).bind fun ar => ?_
  refine (uses_failIf _ _).bind fun _ => ?_
  refine uses_ite (fun _ => uses_pure _) fun _ => ?_
  refine (uses_ofExcept _).bind fun req => (uses_ofExcept _).bind fun _ => ?_
  refine (updateContact_uses h₃ ar.account req.contact).bind fun account => ?_
  have hdeactivate (wanted : Bool) : (s.deactivateIf wanted account).Uses (Within ks) := by
    refine uses_ite (fun _ => ?_) fun _ => uses_pure account
    refine (orInternal_uses ((acme_uses h₄).mapResult _)).bind fun _ => ?_
    exact (recordAudit_uses s.caSvc _ _ _ _ _).bind fun _ => uses_pure _
  exact (hdeactivate _).bind fun account => uses_pure _

omit [Go.Runtime] in
theorem orderObjectFor_uses (o : AcmeOrder) : (s.orderObjectFor o).Uses (Within ks) :=
  (acme_uses trivial).bind fun _ => uses_pure _

omit [Go.Runtime] in
theorem authorizeIdentifiers_uses (h₁ : .insertAuthorization ∈ ks) (h₂ : .insertChallenge ∈ ks)
    (orderID : Nat) (t : Go.Time) (ids : List AcmeIdentifier) :
    (Acme.authorizeIdentifiers orderID t ids).Uses (Within ks) := by
  induction ids with
  | nil => exact uses_pure ()
  | cons id rest ih =>
    have hauthz (a : AcmeAuthorization) : (createAcmeAuthorization a).Uses (Within ks) :=
      (acme_uses h₁).bind fun id => (acme_uses trivial).mapResult _
    have hchallenge (c : AcmeChallenge) : (createAcmeChallenge c).Uses (Within ks) :=
      (acme_uses h₂).bind fun id => (acme_uses trivial).mapResult _
    have hone : (Acme.authorizeIdentifier orderID t id).Uses (Within ks) := by
      refine (orInternal_uses (hauthz _)).bind fun authz => ?_
      refine (orInternal_uses randomToken_uses).bind fun token => ?_
      exact (orInternal_uses (hchallenge _)).bind fun _ => uses_pure ()
    exact hone.bind fun _ => ih

theorem newOrder_uses (h₁ : .consumeNonce ∈ ks) (h₂ : .touchAccount ∈ ks)
    (h₃ : .insertOrder ∈ ks) (h₄ : .insertAuthorization ∈ ks) (h₅ : .insertChallenge ∈ ks)
    (body : Acme.Body) : (s.newOrder body).Uses (Within ks) := by
  refine (authenticate_uses h₁ h₂ _ _).bind fun ar => ?_
  refine (uses_ofExcept _).bind fun req => (uses_failIf _ _).bind fun _ => ?_
  refine (activeCred_uses s _).bind fun cred => (uses_ofExcept _).bind fun idents => ?_
  refine now_uses.bind fun t => (uses_ofExcept _).bind fun notAfter => ?_
  have hcreate (o : AcmeOrder) : (createAcmeOrder o).Uses (Within ks) :=
    (acme_uses h₃).bind fun id => (acme_uses trivial).mapResult _
  refine (orInternal_uses (hcreate _)).bind fun order => ?_
  refine (authorizeIdentifiers_uses h₄ h₅ _ _ _).bind fun _ => ?_
  refine (orInternal_uses (orderObjectFor_uses s order)).bind fun obj => ?_
  exact (recordAudit_uses s.caSvc _ _ _ _ _).bind fun _ => uses_pure _

omit [Go.Runtime] in
theorem ownOrder_uses (ar : Acme.AuthedRequest) (orderID : Nat) :
    (Acme.ownOrder ar orderID).Uses (Within ks) := by
  refine (((acme_uses trivial).mapResult _).mapError _).bind fun order => ?_
  exact (uses_failIf _ _).bind fun _ => uses_pure order

omit [Go.Runtime] in
theorem getOrder_uses (h₁ : .consumeNonce ∈ ks) (h₂ : .touchAccount ∈ ks) (orderID : Nat)
    (body : Acme.Body) : (s.getOrder orderID body).Uses (Within ks) :=
  (authenticate_uses h₁ h₂ _ _).bind fun ar => (ownOrder_uses ar orderID).bind fun order =>
    orInternal_uses (orderObjectFor_uses s order)

omit [Go.Runtime] in
theorem failOrder_uses (h : .setOrderError ∈ ks) (orderID : Nat) (p : Problem) :
    (Acme.failOrder orderID p : Handler Problem α).Uses (Within ks) :=
  (acme_uses h).attempt.bind fun _ => uses_throw p

section Finalization

variable {P : Stmt → Prop} (hfinalize : ∀ s, Within [.consumeNonce, .touchAccount, .setOrderError,
    .claimOrder, .signCertificate, .setOrderCertificate] s → P s)
  (hinsert : ∀ c, Printed c → P (.ca (.insertCertificate c)))

include hfinalize hinsert

theorem issueForOrder_uses (order : AcmeOrder) (cred : EABCred) (csr : Pki.CSR) (cn : String) :
    (s.issueForOrder order cred csr cn).Uses P := by
  have hread (s : Stmt) (hs : Within [] s) : P s := hfinalize s (within_nil s hs)
  have hsign (s : Stmt) (hs : Within [.signCertificate] s) : P s :=
    hfinalize s (hs.mono (by decide))
  refine (now_uses.mono hread).bind fun t => ?_
  refine (issue_uses s.caSvc hsign hinsert _).attempt.bind fun res => ?_
  cases res with
  | error e => exact (failOrder_uses (by decide) _ _).mono hfinalize
  | ok res =>
    refine (orInternal_uses (acme_uses (hfinalize _ (List.mem_of_elem_eq_true rfl)))).bind
      fun _ => ?_
    refine ((recordAudit_uses s.caSvc _ _ _ _ _).mono hread).bind fun _ => ?_
    have hselect : (getAcmeOrder order.id).Uses (Within []) := (acme_uses trivial).mapResult _
    refine (orInternal_uses (hselect.mono hread)).bind fun updated => ?_
    exact orInternal_uses ((orderObjectFor_uses s updated).mono hread)

theorem finalize_uses (orderID : Nat) (body : Acme.Body) : (s.finalize orderID body).Uses P := by
  have hread (s : Stmt) (hs : Within [] s) : P s := hfinalize s (within_nil s hs)
  have hfail (id : Nat) (p : Problem) :
      (Acme.failOrder id p : Handler Problem Acme.OrderObject).Uses P :=
    (failOrder_uses (by decide) id p).mono hfinalize
  refine ((authenticate_uses (by decide) (by decide) _ _).mono hfinalize).bind fun ar => ?_
  refine ((ownOrder_uses ar orderID).mono hread).bind fun order => ?_
  refine (uses_ofExcept _).bind fun _ => (now_uses.mono hread).bind fun t => ?_
  refine uses_ite (fun _ => hfail _ _) fun _ => ?_
  refine (uses_ofExcept _).bind fun csr => ?_
  cases Acme.checkCSR order csr with
  | error p => exact hfail _ p
  | ok cn =>
    refine ((activeCred_uses s _).mono hread).bind fun cred => ?_
    refine (orInternal_uses ((acme_uses (hfinalize _ (List.mem_of_elem_eq_true rfl))).mapResult
      _)).bind fun claimed => ?_
    exact (uses_failIf _ _).bind fun _ =>
      issueForOrder_uses s hfinalize hinsert order cred csr cn

end Finalization

omit [Go.Runtime] in
theorem getAuthorization_uses (h₁ : .consumeNonce ∈ ks) (h₂ : .touchAccount ∈ ks)
    (authzID : Nat) (body : Acme.Body) : (s.getAuthorization authzID body).Uses (Within ks) := by
  refine (((acme_uses trivial).mapResult _).mapError _).bind fun authz => ?_
  refine (((acme_uses trivial).mapResult _).mapError _).bind fun order => ?_
  refine (authenticate_uses h₁ h₂ _ _).bind fun ar => (uses_failIf _ _).bind fun _ => ?_
  exact (orInternal_uses (acme_uses trivial)).bind fun _ => uses_pure _

omit [Go.Runtime] in
theorem getChallenge_uses (h₁ : .consumeNonce ∈ ks) (h₂ : .touchAccount ∈ ks)
    (challengeID : Nat) (body : Acme.Body) :
    (s.getChallenge challengeID body).Uses (Within ks) := by
  refine (((acme_uses trivial).mapResult _).mapError _).bind fun c => ?_
  refine (((acme_uses trivial).mapResult _).mapError _).bind fun authz => ?_
  refine (((acme_uses trivial).mapResult _).mapError _).bind fun order => ?_
  refine (authenticate_uses h₁ h₂ _ _).bind fun ar => (uses_failIf _ _).bind fun _ => ?_
  exact uses_pure _

omit [Go.Runtime] in
theorem getCertificatePEM_uses (h₁ : .consumeNonce ∈ ks) (h₂ : .touchAccount ∈ ks)
    (certID : Nat) (body : Acme.Body) : (s.getCertificatePEM certID body).Uses (Within ks) := by
  refine (authenticate_uses h₁ h₂ _ _).bind fun ar => (uses_failIf _ _).bind fun _ => ?_
  refine (((acme_uses trivial).mapResult _).mapError _).bind fun order => ?_
  refine (uses_failIf _ _).bind fun _ => ?_
  refine ((getCertificate_uses certID).mapError _).bind fun rec => ?_
  exact orInternal_uses (certChainPEM_uses rec)

omit [Go.Runtime] in
theorem revoker_uses (j : Acme.ParsedJWS) : (Acme.revoker j).Uses (Within ks) := by
  refine uses_ite (fun _ => ?_) fun _ => (uses_ofExcept _).bind fun _ => uses_pure _
  exact (resolveAccount_uses _).bind fun a => (uses_ofExcept _).bind fun _ => uses_pure _

theorem presentedCertificate_uses (leaf : X509) :
    (Acme.presentedCertificate leaf).Uses (Within ks) := by
  refine (((ca_uses trivial).mapResult _).mapError _).bind fun rec => ?_
  exact (uses_failIf _ _).bind fun _ => (uses_failIf _ _).bind fun _ => uses_pure rec

omit [Go.Runtime] in
theorem revocationActor_uses (r : Acme.Revoker) (certID : Nat) :
    (Acme.revocationActor r certID).Uses (Within ks) := by
  unfold Acme.revocationActor
  split
  · exact uses_pure _
  · refine (((acme_uses trivial).mapResult _).mapError _).bind fun order => ?_
    refine (((acme_uses trivial).mapResult _).mapError _).bind fun owner => ?_
    refine (uses_failIf _ _).bind fun _ => ?_
    exact (orInternal_uses ((acme_uses trivial).mapResult _)).bind fun cred => uses_pure _

/-- The reason is the one that the request asks for, where package acme accepts it. -/
theorem revokeCert_uses {P : Stmt → Prop} (hread : ∀ s, Within [.consumeNonce] s → P s)
    (body : Acme.Body)
    (hrevoke : ∀ j decoded, Acme.parseJWS body = .ok j → Acme.decodeRevocation j = .ok decoded →
      0 ≤ decoded.2.getD 0 → decoded.2.getD 0 ≠ 7 → decoded.2.getD 0 ≤ 10 →
      ∀ id, P (.ca (.revokeCertificate id (decoded.2.getD 0)))) :
    (s.revokeCert body).Uses P := by
  have hreads (s : Stmt) (hs : Within [] s) : P s := hread s (within_nil s hs)
  refine uses_bind_ofExcept fun j hj => (uses_ofExcept _).bind fun _ => ?_
  refine ((checkNonce_uses (List.mem_singleton_self _) j).mono hread).bind fun _ => ?_
  refine ((revoker_uses j).mono hreads).bind fun signer => ?_
  refine uses_bind_ofExcept fun decoded hdecoded => (uses_ofExcept _).bind fun _ => ?_
  refine ((presentedCertificate_uses decoded.1).mono hreads).bind fun rec => ?_
  refine ((revocationActor_uses signer rec.id).mono hreads).bind fun actor => ?_
  refine uses_bind_failIf fun hreason => ?_
  obtain ⟨hneg, hreason⟩ := not_or.mp hreason
  obtain ⟨hseven, hbig⟩ := not_or.mp hreason
  refine orInternal_uses (revoke_uses s.caSvc hreads ?_ _ _)
  exact hrevoke j decoded (mapError_ok hj) hdecoded (Int.not_lt.mp hneg) hseven
    (Int.not_lt.mp hbig)

end Acme

/-! ## The server -/

theorem replying_uses {P : Stmt → Prop} {err : ε → Reply} {ok : α → Reply} {x : Handler ε α}
    (hx : x.Uses P) : (replying err ok x).Uses P := by
  refine Prog.Uses.bind hx fun r => ?_
  cases r with
  | ok a => exact .pure _
  | error e => exact .pure _

/-- **The footprint of a call**: whatever the store and the host answer, it asks for no effect but
those of its request. -/
theorem serve_uses [Go.Runtime] (c : Call) : c.serve.Uses (Within c.request.effects) := by
  obtain ⟨acme, request⟩ := c
  cases request <;> dsimp only [Request.effects]
  case createCA i => exact replying_uses (serviceCreateCA_uses _ (by decide) (by decide) (by decide) i)
  case setDefaultCA id actor =>
    exact replying_uses (setDefaultCA_uses _ (by decide) id actor)
  case setCAStatus id status actor =>
    exact replying_uses (setCAStatus_uses _ (by decide) id status actor)
  case createSubordinateCSR i => exact replying_uses (serviceCreateSubordinateCSR_uses _ (by decide) i)
  case completeSubordinate i =>
    exact replying_uses (completeSubordinate_uses _ (by decide) (by decide) (by decide) i)
  case importCA i => exact replying_uses (importCA_uses _ (by decide) (by decide) i)
  case issue i =>
    exact replying_uses (issue_uses _ (fun _ hs => hs.mono (by decide))
      (fun _ _ => List.mem_of_elem_eq_true rfl) i)
  case renew id i =>
    exact replying_uses (renew_uses _ (fun _ hs => hs.mono (by decide))
      (fun _ _ => List.mem_of_elem_eq_true rfl) (fun _ => List.mem_of_elem_eq_true rfl) id i)
  case renewExpiring withinDays i =>
    exact replying_uses (renewExpiring_uses _ (fun _ hs => hs.mono (by decide))
      (fun _ _ => List.mem_of_elem_eq_true rfl) (fun _ => List.mem_of_elem_eq_true rfl)
      withinDays i)
  case hold id actor =>
    exact replying_uses (hold_uses _ within_nil (fun _ => List.mem_singleton_self _) id actor)
  case release id actor => exact replying_uses (release_uses _ (by decide) id actor)
  case revoke id reason actor =>
    exact replying_uses (revoke_uses _ within_nil (fun _ => List.mem_singleton_self _) id actor)
  case bulkRevoke i =>
    exact replying_uses (bulkRevoke_uses _ within_nil i fun _ => List.mem_singleton_self _)
  case revokeCA depth id reason cascade actor =>
    exact replying_uses
      (revokeCA_uses _ (fun _ hs => hs.mono (by decide)) (fun _ => List.mem_of_elem_eq_true rfl)
        (fun _ _ => List.mem_of_elem_eq_true rfl) actor depth id cascade)
  case generateCRL caID actor =>
    exact replying_uses (generateCRL_uses _ (by decide) (by decide) caID actor)
  case newNonce => exact replying_uses (newNonce_uses (by decide))
  case purgeNonces => exact replying_uses (purgeNonces_uses (by decide))
  case newAccount body =>
    exact replying_uses
      (newAccount_uses _ (by decide) (by decide) (by decide) (by decide) (by decide) body)
  case getAccount accountID body =>
    exact replying_uses
      (getAccount_uses _ (by decide) (by decide) (by decide) (by decide) accountID body)
  case newOrder body =>
    exact replying_uses
      (newOrder_uses _ (by decide) (by decide) (by decide) (by decide) (by decide) body)
  case getOrder orderID body => exact replying_uses (getOrder_uses _ (by decide) (by decide) orderID body)
  case finalize orderID body =>
    exact replying_uses (finalize_uses _ (fun _ hs => hs.mono (by decide))
      (fun _ _ => List.mem_of_elem_eq_true rfl) orderID body)
  case getAuthorization authzID body =>
    exact replying_uses (getAuthorization_uses _ (by decide) (by decide) authzID body)
  case getChallenge challengeID body =>
    exact replying_uses (getChallenge_uses _ (by decide) (by decide) challengeID body)
  case getCertificatePEM certID body =>
    exact replying_uses (getCertificatePEM_uses _ (by decide) (by decide) certID body)
  case revokeCert body =>
    exact replying_uses (revokeCert_uses _ (fun _ hs => hs.mono (by decide)) body
      fun _ _ _ _ _ _ _ _ => List.mem_of_elem_eq_true rfl)

end Goca
