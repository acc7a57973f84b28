import Goca.Laws.Forest
import Goca.Laws.Lineage

/-!
# Path lengths

A certificate of an authority may say how many further authorities may come below it. Neither of the
two signatures that make an authority looks at what the certificates above say: `CreateCA` writes
the path length it was asked for, and `Issue` signs an intermediate with the path length zero.

So the law holds as long as each signer has room: every certificate from the signer up to its root
admits one more than lie between. The condition is about the links and the certificates that are
stored when the call is made, and a call that meets it keeps the law however it ends.
-/

set_option autoImplicit false

namespace Goca

open Goca.Store
open Goca.Pki (X509)
open Interleave (Act Prog Sem)
open Interleave.Act
open Sql (Table)
open Forest (climb)

/-! ## Chains -/

/-- The path length of a certificate admits so many authorities below it. -/
def AdmitsBelow (x : X509) (k : Nat) : Prop := Pki.pathLenOf x = -1 ∨ (k : Int) ≤ Pki.pathLenOf x

/-- From an authority up to its root, each certificate admits `n` authorities more than lie
between. -/
def HasRoom (t : Table CA) (n p : Nat) : Prop :=
  ∀ k j c x, climb (parentOf t) k p = some j → t.get? j = some c → c.certPEM = some x →
    AdmitsBelow x (n + k)

/-- **Path lengths are respected**: no certificate of an authority has more authorities below it on
a chain than its path length says, be the last one an authority of the database or a certificate
that was issued with the profile of an intermediate. -/
structure PathLensRespected (t : CaTables) : Prop where
  authorities : ∀ i c, t.cas.get? i = some c → HasRoom t.cas 0 i
  issued : ∀ r ∈ t.certificates.rows, r.profile = Pki.Profile.intermCA.text →
    HasRoom t.cas 1 r.caID

/-- The parent of every authority is stored. -/
def ParentsStored (t : Table CA) : Prop :=
  ∀ i p, parentOf t i = some p → ∃ c, t.get? p = some c

section Chains

variable {t : Table CA} {p : Nat}

/-- A certificate admits that nothing comes below it. -/
theorem admitsBelow_zero (x : X509) : AdmitsBelow x 0 := by
  unfold AdmitsBelow Pki.pathLenOf
  split_ifs with h₁ h₂ h₃
  · exact .inl rfl
  · exact .inr (le_refl _)
  · exact .inl rfl
  · exact .inr (by omega)

/-- The links above an authority have room for it where those above its parent have room for one. -/
theorem hasRoom_zero_iff {i : Nat} :
    HasRoom t 0 i ↔ ∀ p, parentOf t i = some p → HasRoom t 1 p := by
  constructor
  · intro h p hp k j c x hclimb hc hx
    have habove := h (k + 1) j c x ((Forest.climb_succ_of_up hp k).trans hclimb) hc hx
    rwa [Nat.zero_add, Nat.add_comm] at habove
  · intro h k j c x hclimb hc hx
    cases k with
    | zero => exact admitsBelow_zero x
    | succ k =>
      obtain ⟨p, hp, habove⟩ := Forest.climb_succ_eq_some.mp hclimb
      have hroom := h p hp k j c x habove hc hx
      rwa [Nat.zero_add, Nat.add_comm]

/-- What is above an authority that is stored is stored. -/
theorem ParentsStored.above (h : ParentsStored t) {i j k : Nat} {c : CA} (hc : t.get? i = some c)
    (hclimb : climb (parentOf t) k i = some j) : ∃ d, t.get? j = some d := by
  cases k with
  | zero =>
    cases hclimb
    exact ⟨c, hc⟩
  | succ k =>
    obtain ⟨a, -, hlast⟩ := Forest.climb_succ_last hclimb
    exact h a j hlast

end Chains

/-! ## One statement -/

section Step

variable [Go.Runtime] {e : Env} {w w' : World} {s : Stmt} {x : s.Ans}

/-- A statement that stores authorities under the given one only, and so intermediates. -/
def SignedBy (q : Option Nat) : Stmt → Prop
  | .ca (.insertCA c) => ∀ p, c.parentID = some p → q = some p
  | .ca (.insertCertificate r) => r.profile = Pki.Profile.intermCA.text → q = some r.caID
  | .ca (.completeCA _ _) => False
  | _ => True

/-- What holds while a call goes on that signs with the given authority. -/
structure Signing (q : Option Nat) (w : World) : Prop where
  respected : PathLensRespected w.ca
  parents : ParentsStored w.ca.cas
  issuers : ∀ r ∈ w.ca.certificates.rows, ∃ c, w.ca.cas.get? r.caID = some c
  signer : ∀ p, q = some p → (∃ c, w.ca.cas.get? p = some c) ∧ HasRoom w.ca.cas 1 p

variable {q : Option Nat}

/-- An authority that is stored stays, with its parent and its certificate. -/
theorem authority_kept (h : exec e w s = some (x, w')) (hs : SignedBy q s) {i : Nat} {c : CA}
    (hc : w.ca.cas.get? i = some c) : ∃ c', w'.ca.cas.get? i = some c' ∧
      c'.parentID = c.parentID ∧ c'.certPEM = c.certPEM := by
  have hstep := authority_step h i
  rw [hc] at hstep
  generalize w'.ca.cas.get? i = r at hstep ⊢
  cases hstep with
  | completed n _ _ => exact False.elim hs
  | _ => exact ⟨_, rfl, rfl, rfl⟩

/-- A climb from an authority that was stored meets what it met before. -/
theorem climb_kept (h : exec e w s = some (x, w')) (hs : SignedBy q s)
    (hw : ParentsStored w.ca.cas) {i j k : Nat} {c : CA} (hc : w.ca.cas.get? i = some c)
    (hclimb : climb (parentOf w'.ca.cas) k i = some j) :
    climb (parentOf w.ca.cas) k i = some j := by
  induction k generalizing i c with
  | zero => exact hclimb
  | succ k ih =>
    obtain ⟨p, hp, habove⟩ := Forest.climb_succ_eq_some.mp hclimb
    obtain ⟨c', hc', hparent, -⟩ := authority_kept h hs hc
    obtain ⟨c'', hc'', hlink⟩ := parentOf_eq_some.mp hp
    obtain rfl := Option.some.inj (hc'.symm.trans hc'')
    have hold : parentOf w.ca.cas i = some p :=
      parentOf_eq_some.mpr ⟨c, hc, hparent.symm.trans hlink⟩
    obtain ⟨d, hd⟩ := hw i p hold
    exact (Forest.climb_succ_of_up hold k).trans (ih hd habove)

/-- The room above an authority stays. -/
theorem hasRoom_kept (h : exec e w s = some (x, w')) (hs : SignedBy q s)
    (hw : ParentsStored w.ca.cas) {n p : Nat} {c : CA} (hc : w.ca.cas.get? p = some c)
    (hroom : HasRoom w.ca.cas n p) : HasRoom w'.ca.cas n p := by
  intro k j d' x hclimb hd' hx
  have hold := climb_kept h hs hw hc hclimb
  obtain ⟨d, hd⟩ := hw.above hc hold
  obtain ⟨d'', hd'', -, hcert⟩ := authority_kept h hs hd
  obtain rfl := Option.some.inj (hd'.symm.trans hd'')
  exact hroom k j d x hold hd (hcert.symm.trans hx)

/-- The row of an authority that was not there is the one that the statement stores, and its parent
is stored. -/
theorem authority_new (h : exec e w s = some (x, w')) {i : Nat} {c : CA}
    (hold : w.ca.cas.get? i = none) (hc : w'.ca.cas.get? i = some c) :
    ∃ n, s = .ca (.insertCA n) ∧ c.parentID = n.parentID ∧
      ∀ p, n.parentID = some p → ∃ d, w.ca.cas.get? p = some d := by
  have hstep := authority_step h i
  rw [hold, hc] at hstep
  obtain ⟨n, rfl, hconflict, -, rfl⟩ := hstep.new
  refine ⟨n, rfl, rfl, fun p hp => ?_⟩
  unfold CaTables.caConflict at hconflict
  rw [hp] at hconflict
  split_ifs at hconflict with _ _ hparent
  exact Option.ne_none_iff_exists'.mp (by simpa using hparent)

theorem parentsStored_step (h : exec e w s = some (x, w')) (hs : SignedBy q s)
    (hw : ParentsStored w.ca.cas) : ParentsStored w'.ca.cas := by
  intro i p hp
  obtain ⟨c', hc', hlink⟩ := parentOf_eq_some.mp hp
  have hstored : ∃ d, w.ca.cas.get? p = some d := by
    cases hold : w.ca.cas.get? i with
    | none =>
      obtain ⟨n, -, hparent, hn⟩ := authority_new h hold hc'
      exact hn p (hparent.symm.trans hlink)
    | some c =>
      obtain ⟨c'', hc'', hparent, -⟩ := authority_kept h hs hold
      obtain rfl := Option.some.inj (hc'.symm.trans hc'')
      exact hw i p (parentOf_eq_some.mpr ⟨c, hold, hparent.symm.trans hlink⟩)
  obtain ⟨d, hd⟩ := hstored
  obtain ⟨d', hd', -⟩ := authority_kept h hs hd
  exact ⟨d', hd'⟩

/-- A row has the issuer and the profile of one in the tables, or of the one that a statement stores
under an authority of theirs. -/
def FiledBy (s : Stmt) (t : CaTables) (r' : Certificate) : Prop :=
  (∃ r ∈ t.certificates.rows, r'.caID = r.caID ∧ r'.profile = r.profile) ∨
    ∃ n, s = .ca (.insertCertificate n) ∧ r'.caID = n.caID ∧ r'.profile = n.profile ∧
      ∃ c, t.cas.get? n.caID = some c

theorem certificate_before (h : exec e w s = some (x, w')) {r' : Certificate}
    (hr' : r' ∈ w'.ca.certificates.rows) : FiledBy s w.ca r' := by
  refine exec_ca_induction (P := fun s t t' => ∀ r' ∈ t'.certificates.rows, FiledBy s t r')
    ?_ ?_ h r' hr'
  · exact fun _ _ r hr => .inl ⟨r, hr, rfl, rfl⟩
  intro s t _
  have hsame {s : Stmt} {t' : CaTables} (ht : t'.certificates = t.certificates) :
      ∀ r' ∈ t'.certificates.rows, FiledBy s t r' := by
    rw [ht]
    exact fun r hr => .inl ⟨r, hr, rfl, rfl⟩
  have hupdate {s : Stmt} {p : Certificate → Bool} {f : Certificate → Certificate}
      {hf : ∀ c, (f c).id = c.id}
      (hkeep : ∀ c, (f c).caID = c.caID ∧ (f c).profile = c.profile) :
      ∀ r' ∈ (t.updateCertificates p f hf).certificates.rows, FiledBy s t r' := by
    intro r' hr'
    change r' ∈ (t.certificates.update p f hf).rows at hr'
    obtain ⟨r, hr, rfl⟩ := Table.mem_update.mp hr'
    refine .inl ⟨r, hr, ?_⟩
    split
    · exact hkeep r
    · exact ⟨rfl, rfl⟩
  cases s with
  | insertCertificate n =>
    simp only [CaTables.exec]
    split
    · exact hsame rfl
    · next hconflict =>
      intro r' hr'
      change r' ∈ (t.certificates.insert n.stored fun _ => rfl).rows at hr'
      rcases Table.mem_insert.mp hr' with hr' | rfl
      · exact .inl ⟨r', hr', rfl, rfl⟩
      · refine .inr ⟨n, rfl, rfl, rfl, ?_⟩
        unfold CaTables.certConflict at hconflict
        split_ifs at hconflict with _ hissuer
        exact Option.ne_none_iff_exists'.mp (by simpa using hissuer)
  | insertCA c =>
    simp only [CaTables.exec]
    split <;> exact hsame rfl
  | completeCA id c =>
    simp only [CaTables.exec]
    split <;> exact hsame rfl
  | revokeCertificate id reason => exact hupdate fun _ => ⟨rfl, rfl⟩
  | unrevokeCertificate id => exact hupdate fun _ => ⟨rfl, rfl⟩
  | setRenewedFrom id p => exact hupdate fun _ => ⟨rfl, rfl⟩
  | _ => exact hsame rfl

/-- **A step keeps path lengths respected.** -/
theorem signing_step (h : exec e w s = some (x, w')) (hs : SignedBy q s) (hw : Signing q w) :
    Signing q w' := by
  have hkept {n p : Nat} (hp : ∃ c, w.ca.cas.get? p = some c) (hroom : HasRoom w.ca.cas n p) :
      HasRoom w'.ca.cas n p := by
    obtain ⟨c, hc⟩ := hp
    exact hasRoom_kept h hs hw.parents hc hroom
  have hstays {p : Nat} (hp : ∃ c, w.ca.cas.get? p = some c) : ∃ c, w'.ca.cas.get? p = some c := by
    obtain ⟨c, hc⟩ := hp
    obtain ⟨c', hc', -⟩ := authority_kept h hs hc
    exact ⟨c', hc'⟩
  refine ⟨⟨fun i c' hc' => ?_, fun r' hr' hprofile => ?_⟩, parentsStored_step h hs hw.parents,
    fun r' hr' => ?_, fun p hp => ⟨hstays (hw.signer p hp).1, hkept (hw.signer p hp).1
      (hw.signer p hp).2⟩⟩
  · cases hold : w.ca.cas.get? i with
    | some c => exact hkept ⟨c, hold⟩ (hw.respected.authorities i c hold)
    | none =>
      obtain ⟨n, rfl, hparent, -⟩ := authority_new h hold hc'
      refine hasRoom_zero_iff.mpr fun p hp => ?_
      obtain ⟨c'', hc'', hlink⟩ := parentOf_eq_some.mp hp
      obtain rfl := Option.some.inj (hc'.symm.trans hc'')
      obtain ⟨hstored, hroom⟩ := hw.signer p (hs p (hparent.symm.trans hlink))
      exact hkept hstored hroom
  · rcases certificate_before h hr' with ⟨r, hr, hca, hsame⟩ | ⟨n, rfl, hca, hsame, hstored⟩
    · rw [hca]
      exact hkept (hw.issuers r hr) (hw.respected.issued r hr (hsame.symm.trans hprofile))
    · rw [hca]
      exact hkept hstored (hw.signer n.caID (hs (hsame.symm.trans hprofile))).2
  · rcases certificate_before h hr' with ⟨r, hr, hca, -⟩ | ⟨n, -, hca, -, hstored⟩
    · rw [hca]
      exact hstays (hw.issuers r hr)
    · rw [hca]
      exact hstays hstored

end Step

/-! ## The calls -/

section Calls

variable [Go.Runtime] {w w' : World} {s : Ca.Service} {q : Option Nat}

omit [Go.Runtime] in
theorem signedBy_of_within {s : Stmt} (h : Within [.signCertificate, .setDefaultCA] s) :
    SignedBy q s := by
  cases s with
  | ca s =>
    cases s with
    | insertCA c => exact absurd h (by simp [Within, Stmt.effect?])
    | insertCertificate r => exact absurd h (by simp [Within, Stmt.effect?])
    | completeCA id c => exact absurd h (by simp [Within, Stmt.effect?])
    | _ => trivial
  | _ => trivial

omit [Go.Runtime] in
theorem signedBy_of_reads {s : Stmt} (h : Within [] s) : SignedBy q s :=
  signedBy_of_within (within_nil s h)

omit [Go.Runtime] in
/-- What is stored of an authority names the parent that was read, marked as the default or not. -/
theorem createCA_signedBy {c : CA} (hc : ∀ p, c.parentID = some p → q = some p) :
    (Store.createCA c).Uses (SignedBy q) := by
  have hrest (c' : CA) (hparent : c'.parentID = c.parentID) :
      ((ca (.insertCA c')).mapError (fun e => Go.Error.wrap "insert CA: " e "") >>=
        getCA).Uses (SignedBy q) := by
    refine Uses.bind (Uses.mapError (ca_uses fun p hp => hc p (hparent.symm.trans hp)) _)
      fun id => ?_
    exact (getCA_uses id).mono fun _ => signedBy_of_reads
  unfold Store.createCA markDefault
  split
  · refine .ask trivial fun n => ?_
    rcases n with e | _ | n
    · exact hrest c rfl
    · exact hrest { c with isDefault := true } rfl
    · exact hrest c rfl
  · exact hrest c rfl

omit [Go.Runtime] in
/-- What is stored of a certificate has the profile it was issued with. -/
theorem createCertificate_signedBy {r : Certificate}
    (hr : r.profile = Pki.Profile.intermCA.text → q = some r.caID) :
    (createCertificate r).Uses (SignedBy q) := by
  refine (now_uses.mono fun _ => signedBy_of_reads).bind fun t => ?_
  refine Uses.bind (Uses.mapError (ca_uses ?_) _) fun id => ?_
  · intro hprofile
    change nz r.profile "server" = Pki.Profile.intermCA.text at hprofile
    unfold nz at hprofile
    split at hprofile
    · exact absurd hprofile (by decide)
    · exact hr hprofile
  · exact (getCertificate_uses id).mono fun _ => signedBy_of_reads

-- From here on a call is taken apart by the rules, never by running it.
attribute [local irreducible] Interleave.Prog.Returns

/-- What signs with an authority that has room keeps path lengths respected. -/
theorem Signing.keeps {ε α : Type} {x : Handler ε α} {r : Except ε α} (hx : x.Uses (SignedBy q))
    (h : x.Returns exec w r w') (hw : Signing q w) : Signing q w' :=
  Prog.Uses.returns_keeps (J := Signing q) hx (fun _ _ _ _ _ hs hstep => signing_step hstep hs) h hw

omit [Go.Runtime] in
/-- Between two calls nothing is signed. -/
theorem Signing.done (h : Signing q w) : Signing none w :=
  { h with signer := fun _ hp => by cases hp }

/-- The parent that is loaded is one that the reference matches. -/
theorem loadParent_returns {ref : String} {parent : Option Ca.Parent}
    (h : (Ca.loadParent ref).Returns exec w (.ok parent) w') : w = w' ∧ ∀ p, parent = some p →
      Go.trimSpace ref ≠ "" ∧ Go.trimSpace ref ≠ "none" ∧
        p.1 ∈ refMatches w.ca.cas (Go.trimSpace ref) := by
  unfold Ca.loadParent at h
  dsimp only at h
  split at h
  · next href =>
    obtain ⟨row, _, hrow, h₁⟩ := returns_bind.mp h
    obtain ⟨hmatch, rfl⟩ := getCAByRef_returns (returns_mapError.mp hrow)
    obtain ⟨cert, _, hcert, h₂⟩ := returns_bind.mp h₁
    obtain ⟨-, rfl⟩ := returns_ofExcept.mp hcert
    obtain ⟨key, _, hkey, h₃⟩ := returns_bind.mp h₂
    obtain ⟨-, rfl⟩ := returns_ofExcept.mp hkey
    obtain ⟨rfl, rfl⟩ := returns_pure.mp h₃
    refine ⟨rfl, ?_⟩
    rintro p ⟨⟩
    exact ⟨href.1, href.2, hmatch⟩
  · obtain ⟨rfl, rfl⟩ := returns_pure.mp h
    refine ⟨rfl, ?_⟩
    rintro p ⟨⟩

/-- **The parent has room**: whatever authority the reference of a new one can resolve to. -/
def ParentHasRoom (w : World) (i : Ca.CreateCAInput) : Prop :=
  Go.trimSpace i.parentRef ≠ "" → Go.trimSpace i.parentRef ≠ "none" →
    ∀ p ∈ refMatches w.ca.cas (Go.trimSpace i.parentRef), HasRoom w.ca.cas 1 p.id

/-- **The issuer has room** for an intermediate: whatever authority its reference can resolve to. -/
def IssuerHasRoom (w : World) (i : Ca.IssueInput) : Prop :=
  Pki.parseProfile i.profile = .ok .intermCA →
    ∀ p ∈ refMatches w.ca.cas i.caRef, HasRoom w.ca.cas 1 p.id

/-- What reads the tables only leaves a signing call where it was. -/
theorem Signing.reads {ε α : Type} {x : Handler ε α} {r : Except ε α} (hx : x.Uses (Within []))
    (h : x.Returns exec w r w') (hw : Signing q w) : Signing q w' :=
  hw.keeps (hx.mono fun _ => signedBy_of_reads) h

theorem createCA_signing {i : Ca.CreateCAInput} {r : Except Go.Error CA}
    (h : (s.createCA i).Returns exec w r w') (hroom : ParentHasRoom w i) (hw : Signing none w) :
    Signing none w' := by
  refine Returns.bind_keeps (J := Signing none) h (fun _ _ hr => hw.reads (uses_failIf _ _) hr) ?_
  intro _ v₁ hchecked r₁ u₁ h₁
  obtain ⟨-, rfl⟩ := returns_failIf.mp hchecked
  refine Returns.bind_keeps (J := Signing none) h₁ (fun _ _ hr => hw.reads (uses_ofExcept _) hr) ?_
  intro _ v₂ hvalid r₂ u₂ h₂
  obtain ⟨-, rfl⟩ := returns_ofExcept.mp hvalid
  refine Returns.bind_keeps (J := Signing none) h₂ (fun _ _ hr => hw.reads (uses_ofExcept _) hr) ?_
  intro kt v₃ hkt r₃ u₃ h₃
  obtain ⟨-, rfl⟩ := returns_ofExcept.mp hkt
  refine Returns.bind_keeps (J := Signing none) h₃
    (fun _ _ hr => hw.reads (loadParent_uses _) hr) ?_
  intro parent v₄ hparent r₄ u₄ h₄
  obtain ⟨rfl, hmatch⟩ := loadParent_returns hparent
  have hsigner : Signing (parent.map fun p => p.1.id) w := by
    refine { hw with signer := fun p hp => ?_ }
    obtain ⟨row, hrow, rfl⟩ := Option.map_eq_some_iff.mp hp
    obtain ⟨hne, hnone, hmem⟩ := hmatch row hrow
    exact ⟨⟨row.1, Table.get?_of_mem (mem_of_refMatches hmem)⟩, hroom hne hnone row.1 hmem⟩
  refine (hsigner.keeps ?_ h₄).done
  have hwithin (s : Stmt) (hs : Within [.signCertificate, .setDefaultCA] s) :
      SignedBy (parent.map fun p => p.1.id) s := signedBy_of_within hs
  refine ((pkiCreateCA_uses List.mem_cons_self _).mono hwithin).bind fun res => ?_
  refine ((uniqueSlug_uses _).mono fun _ => signedBy_of_reads).bind fun slug => ?_
  have hstore (name : String) : (Store.createCA (i.record name slug parent res)).Uses
      (SignedBy (parent.map fun p => p.1.id)) := createCA_signedBy fun p hp => hp
  refine (hstore _).bind fun saved => ?_
  refine ((makeDefaultIf_uses (List.mem_cons_of_mem _ List.mem_cons_self) _ saved).mono
    hwithin).bind fun saved => ?_
  exact ((audit_uses s _ _ _ _).mono fun _ => signedBy_of_reads).bind fun _ => uses_pure saved

theorem issue_signing {i : Ca.IssueInput} {r : Except Go.Error Ca.IssueResult}
    (h : (s.issue i).Returns exec w r w') (hroom : IssuerHasRoom w i) (hw : Signing none w) :
    Signing none w' := by
  refine Returns.bind_keeps (J := Signing none) h
    (fun _ _ hr => hw.reads (loadIssuer_uses _) hr) ?_
  rintro ⟨row, cert, key⟩ v hissuer r₁ u₁ h₁
  obtain ⟨⟨hmem, -, -, -⟩, rfl⟩ := loadIssuer_returns hissuer
  refine Returns.bind_keeps (J := Signing none) h₁ (fun _ _ hr => hw.reads (uses_ofExcept _) hr) ?_
  intro profile v₁ hprofile r₂ u₂ h₂
  obtain ⟨hparsed, rfl⟩ := returns_ofExcept.mp hprofile
  -- Only an intermediate asks for room.
  have hsigner : Signing (if profile = .intermCA then some row.id else none) w := by
    refine { hw with signer := fun p hp => ?_ }
    by_cases hinterm : profile = .intermCA
    · rw [if_pos hinterm] at hp
      obtain rfl := Option.some.inj hp
      refine ⟨⟨row, Table.get?_of_mem (mem_of_refMatches hmem)⟩, ?_⟩
      exact hroom (hparsed.trans (congrArg Except.ok hinterm)) row hmem
    · rw [if_neg hinterm] at hp
      cases hp
  refine (hsigner.keeps ?_ h₂).done
  refine (uses_failIf _ _).bind fun _ => ?_
  refine ((keyMaterial_uses s i).mono fun _ => signedBy_of_reads).bind fun m => ?_
  refine (uses_ofExcept _).bind fun sanOverride => ?_
  refine ((sign_uses List.mem_cons_self _).mono fun _ => signedBy_of_within).bind fun cert => ?_
  refine Uses.bind (createCertificate_signedBy ?_) fun saved => ?_
  · intro htext
    have hinterm : profile = .intermCA := by
      change profile.text = Pki.Profile.intermCA.text at htext
      cases profile with
      | intermCA => rfl
      | _ => exact absurd htext (by decide)
    exact if_pos hinterm
  refine ((audit_uses s _ _ _ _).mono fun _ => signedBy_of_reads).bind fun _ => ?_
  exact ((caChain_uses _).mono fun _ => signedBy_of_reads).attempt.bind fun chain => uses_pure _

end Calls

/-! ## Runs -/

section Runs

variable [Go.Runtime]

attribute [local irreducible] Interleave.Prog.Returns

/-- **The databases that authorities are built in**: they begin empty, and calls of `CreateCA` and
`Issue` that meet a condition led to them, whatever became of each. -/
inductive Built (okCA : World → Ca.CreateCAInput → Prop) (okIssue : World → Ca.IssueInput → Prop) :
    World → Prop
  | start {w : World} (hcas : w.ca.cas.rows = []) (hcerts : w.ca.certificates.rows = []) :
      Built okCA okIssue w
  | createCA {w w' : World} (s : Ca.Service) (i : Ca.CreateCAInput) {r : Except Go.Error CA}
      (hw : Built okCA okIssue w) (hi : okCA w i) (h : (s.createCA i).Returns exec w r w') :
      Built okCA okIssue w'
  | issue {w w' : World} (s : Ca.Service) (i : Ca.IssueInput)
      {r : Except Go.Error Ca.IssueResult} (hw : Built okCA okIssue w) (hi : okIssue w i)
      (h : (s.issue i).Returns exec w r w') : Built okCA okIssue w'

omit [Go.Runtime] in
/-- An empty database has no path to respect. -/
theorem signing_start {w : World} (hcas : w.ca.cas.rows = [])
    (hcerts : w.ca.certificates.rows = []) : Signing none w := by
  have hnone (i : Nat) (c : CA) : w.ca.cas.get? i ≠ some c := by
    intro hrow
    have hmem := Table.mem_of_get? hrow
    rw [hcas] at hmem
    exact List.not_mem_nil hmem
  have hempty (r : Certificate) : r ∉ w.ca.certificates.rows := by
    rw [hcerts]
    exact List.not_mem_nil
  refine ⟨⟨?_, ?_⟩, ?_, ?_, ?_⟩
  · exact fun i c hc => absurd hc (hnone i c)
  · exact fun r hr => absurd hr (hempty r)
  · intro i p hp
    obtain ⟨c, hc, -⟩ := parentOf_eq_some.mp hp
    exact absurd hc (hnone i c)
  · exact fun r hr => absurd hr (hempty r)
  · intro p hp
    cases hp

/-- **Path lengths are respected** in every database where each signer had room. -/
theorem pathLens_respected {w : World} (h : Built ParentHasRoom IssuerHasRoom w) :
    PathLensRespected w.ca := by
  suffices hsigning : Signing none w from hsigning.respected
  induction h with
  | start hcas hcerts => exact signing_start hcas hcerts
  | createCA s i _ hi h ih => exact createCA_signing h hi ih
  | issue s i _ hi h ih => exact issue_signing h hi ih

end Runs

/-! ### A root that admits nothing below it -/

section Samples

attribute [local instance] Go.asciiRuntime

attribute [local irreducible] Interleave.Prog.Returns

open Samples (afterCall replica)

/-- A database with one root, of the given path length. -/
def rooted (pathLen : Int) : World :=
  afterCall (replica.caSvc.createCA
      { name := "Root", subject := { commonName := "Root" }, pathLen := pathLen })
    { now := 100, pick := 1 } (World.empty .empty)

/-- An authority under it. -/
def subordinate : Ca.CreateCAInput where
  name := "Sub"
  subject := { commonName := "Sub" }
  parentRef := "root"
  days := 90

/-- The database with both. -/
def nested (pathLen : Int) : World :=
  afterCall (replica.caSvc.createCA subordinate) { now := 200, pick := 2 } (rooted pathLen)

theorem built_afterCall {okCA : World → Ca.CreateCAInput → Prop}
    {okIssue : World → Ca.IssueInput → Prop} {w : World} (i : Ca.CreateCAInput) (e : Env)
    (hw : Built okCA okIssue w) (hi : okCA w i) :
    Built okCA okIssue (afterCall (replica.caSvc.createCA i) e w) := by
  unfold afterCall
  split
  · next r w' h =>
    have hret : (replica.caSvc.createCA i).Returns exec w r w' :=
      Interleave.Prog.returns_of_evalWith h
    exact .createCA _ i hw hi hret
  · exact hw

/-- An authority without a parent has the room that its certificate admits. -/
theorem hasRoom_root {t : Table CA} {n : Nat} {p : CA} (hp : p ∈ t.rows) (hroot : p.parentID = none)
    (hcert : ∀ x, p.certPEM = some x → AdmitsBelow x n) : HasRoom t n p.id := by
  have hrow : t.get? p.id = some p := Table.get?_of_mem hp
  intro k j c x hclimb hc hx
  cases k with
  | zero =>
    cases hclimb
    obtain rfl := Option.some.inj (hrow.symm.trans hc)
    exact hcert x hx
  | succ k =>
    obtain ⟨a, ha, -⟩ := Forest.climb_succ_eq_some.mp hclimb
    obtain ⟨c', hc', hlink⟩ := parentOf_eq_some.mp ha
    obtain rfl := Option.some.inj (hrow.symm.trans hc')
    rw [hroot] at hlink
    cases hlink

/-- A root of the path length one may have an authority below it. -/
theorem nested_respected : (nested 1).ca.cas.count (·.parentID == some 1) = 1 ∧
    PathLensRespected (nested 1).ca := by
  have hone : (nested 1).ca.cas.count (·.parentID == some 1) = 1 := by decide +kernel
  refine ⟨hone, pathLens_respected (built_afterCall _ _ (built_afterCall _ _ (.start rfl rfl) ?_)
    ?_)⟩
  · intro hne
    exact absurd (by decide) hne
  · intro _ _ p hp
    have hrows : ∀ p ∈ (rooted 1).ca.cas.rows, p.parentID = none ∧
        p.certPEM.all (fun x => Pki.pathLenOf x == 1) = true := by decide +kernel
    have hmem := mem_of_refMatches hp
    obtain ⟨hroot, hlen⟩ := hrows p hmem
    refine hasRoom_root hmem hroot fun x hx => .inr ?_
    rw [hx] at hlen
    rw [beq_iff_eq.mp hlen]
    rfl

/-- A root that admits no authority below it gets one. -/
theorem nested_exceeds : ¬ ∀ w, Built (fun _ _ => True) (fun _ _ => True) w →
    PathLensRespected w.ca := by
  intro hall
  have hbuilt : Built (fun _ _ => True) (fun _ _ => True) (nested 0) :=
    built_afterCall _ _ (built_afterCall _ _ (.start rfl rfl) trivial) trivial
  have hrows : ∃ c ∈ (nested 0).ca.cas.rows, c.parentID = some 1 ∧
      ∃ d ∈ (nested 0).ca.cas.rows, d.id = 1 ∧
        d.certPEM.any (fun x => Pki.pathLenOf x == 0) = true := by decide +kernel
  obtain ⟨c, hc, hlink, d, hd, hid, hlen⟩ := hrows
  obtain ⟨x, hx, hzero⟩ := (Option.any_eq_true _ _).mp hlen
  have hrow : (nested 0).ca.cas.get? c.id = some c := Table.get?_of_mem hc
  have hparent : (nested 0).ca.cas.get? d.id = some d := Table.get?_of_mem hd
  have hup : parentOf (nested 0).ca.cas c.id = some d.id :=
    parentOf_eq_some.mpr ⟨c, hrow, hlink.trans (congrArg some hid.symm)⟩
  have hadmits := (hall _ hbuilt).authorities c.id c hrow 1 d.id d x
    ((Forest.climb_succ_of_up hup 0).trans rfl) hparent hx
  unfold AdmitsBelow at hadmits
  rw [beq_iff_eq.mp hzero] at hadmits
  exact absurd hadmits (by decide)

end Samples

end Goca
