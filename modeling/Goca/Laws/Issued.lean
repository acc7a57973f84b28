import Goca.Laws.AltNames
import Goca.Laws.Reference
import Goca.Laws.Returned

/-!
# What issue stores

A call of `issue` that nobody interferes with resolves an authority, makes a request or takes one
over, signs it and stores the row of the certificate. `IssueRun` lists what a call that returned
went through, and `issue_returns` reads it off the call.

What later calls rely on is less: `Issued` says of a row that its columns are those of its
certificate, the names as texts and the private key where there is one, and that the row of its
authority still holds the certificate and the key that signed it. `issue_issued` proves it of every
row that `issue` stores.
-/

set_option autoImplicit false

namespace Goca

open Go (Time)
open Goca.Store
open Goca.Pki (PrivateKey Profile SANSet SignParams SignedAt X509 IsAddress)
open Interleave (Act Sem)
open Interleave.Act

-- A call is taken apart by the rules, never by running it.
attribute [local irreducible] Interleave.Prog.Returns

variable [Go.Runtime] {ε α : Type} {w w' : World}

/-! ## Reads -/

theorem getCertificate_returns {id : Nat} {c : Certificate}
    (h : (getCertificate id).Returns exec w (.ok c) w') :
    w.ca.certificates.get? id = some c ∧ w = w' := by
  obtain ⟨r, hr, hrow⟩ := returns_mapResult.mp h
  obtain rfl := row_eq_ok hrow
  obtain ⟨e, _, hx, rfl⟩ := ca_returns hr
  exact ⟨Except.ok.inj hx, rfl⟩

omit [Go.Runtime] in
theorem mem_of_pickRow {R : Type} {pick : Nat} {rows : List R} {r : R}
    (h : pickRow pick rows = some r) : r ∈ rows := List.mem_of_getElem? h

/-- What is returned for a reference is one of the rows it matches. -/
theorem getCAByRef_returns {ref : String} {row : CA}
    (h : (getCAByRef ref).Returns exec w (.ok row) w') :
    row ∈ refMatches w.ca.cas ref ∧ w = w' := by
  unfold getCAByRef at h
  unfold refMatches
  dsimp only at h
  by_cases href : Go.trimSpace ref = ""
  · rw [if_pos href] at h ⊢
    obtain ⟨r, hr, hrow⟩ := returns_mapResult.mp h
    obtain rfl := row_eq_ok hrow
    obtain ⟨e, _, hx, rfl⟩ := ca_returns hr
    exact ⟨Option.mem_toList.mpr (Except.ok.inj hx), rfl⟩
  · rw [if_neg href] at h ⊢
    obtain ⟨r, hr, hrow⟩ := returns_mapResult.mp h
    obtain rfl := row_eq_ok hrow
    obtain ⟨e, _, hx, rfl⟩ := ca_returns hr
    exact ⟨mem_of_pickRow (Except.ok.inj hx), rfl⟩

omit [Go.Runtime] in
/-- What a reference matches is a row of the table. -/
theorem mem_of_refMatches {t : Sql.Table CA} {ref : String} {row : CA}
    (h : row ∈ refMatches t ref) : row ∈ t.rows := by
  unfold refMatches at h
  split at h
  · rcases Option.or_eq_some_iff.mp (Option.mem_toList.mp h) with hfind | ⟨_, hhead⟩
    · exact (List.mem_filter.mp (List.mem_of_find?_eq_some hfind)).1
    · exact (List.mem_filter.mp (List.mem_of_head? hhead)).1
  · exact (mem_matching.mp h).1

theorem checkCanIssue_returns {c : CA} {u : Unit}
    (h : (Ca.checkCanIssue c).Returns exec w (.ok u) w') :
    (∃ t, 0 < t ∧ Ca.canIssue t c = .ok ()) ∧ w = w' := by
  obtain ⟨t, _, ht, h⟩ := returns_bind.mp h
  obtain ⟨hpos, rfl⟩ := Pki.now_returns.mp ht
  obtain ⟨hcan, rfl⟩ := returns_ofExcept.mp h
  exact ⟨⟨t, hpos, hcan⟩, rfl⟩

/-- What `loadIssuer` returns was resolved and could sign. -/
theorem loadIssuer_returns {ref : String} {x : Ca.Issuer}
    (h : (Ca.loadIssuer ref).Returns exec w (.ok x) w') :
    (x.1 ∈ refMatches w.ca.cas ref ∧ (∃ t, 0 < t ∧ Ca.canIssue t x.1 = .ok ()) ∧
      x.1.certPEM = some x.2.1 ∧ x.1.keyEnc = some x.2.2) ∧ w = w' := by
  unfold Ca.loadIssuer at h
  obtain ⟨found, _, hfound, h⟩ := returns_bind.mp h
  cases found with
  | error e =>
    dsimp only at h
    split at h
    · obtain ⟨e', v, _, h⟩ := returns_bind.mp h
      exact absurd h not_returns_throw
    · exact absurd h not_returns_throw
  | ok row =>
    obtain ⟨hresolved, rfl⟩ := getCAByRef_returns (returns_attempt.mp hfound)
    obtain ⟨_, _, hable, h⟩ := returns_bind.mp h
    obtain ⟨hcan, rfl⟩ := checkCanIssue_returns hable
    obtain ⟨cert, _, hparsed, h⟩ := returns_bind.mp h
    obtain ⟨hcert, rfl⟩ := returns_ofExcept.mp hparsed
    obtain ⟨key, _, hunlocked, h⟩ := returns_bind.mp h
    obtain ⟨hkey, rfl⟩ := returns_ofExcept.mp hunlocked
    obtain ⟨rfl, rfl⟩ := returns_pure.mp h
    exact ⟨⟨hresolved, hcan, parseCertPEM_ok (mapError_ok hcert), decryptKey_ok (mapError_ok hkey)⟩,
      rfl⟩

/-- What only reads leaves the CA tables as they are. -/
theorem Act.Returns.reads {x : Handler ε α} {r : Except ε α} (hx : x.Uses (Within []))
    (h : x.Returns exec w r w') : w'.ca = w.ca := by
  refine Interleave.Prog.Uses.returns_keeps (J := fun u => u.ca = w.ca) hx ?_ h rfl
  intro e u s y v hs hy hu
  rw [← hu]
  refine exec_ca_induction (P := fun s t t' => Within [] s → t' = t) (fun _ _ _ => rfl) ?_ hy hs
  intro s t _ hs
  cases s with
  | insertCA c => exact absurd hs List.not_mem_nil
  | setDefaultCA id => exact absurd hs List.not_mem_nil
  | setCAStatus id st => exact absurd hs List.not_mem_nil
  | nextCRLNumber id => exact absurd hs List.not_mem_nil
  | completeCA id c => exact absurd hs List.not_mem_nil
  | insertCertificate c => exact absurd hs List.not_mem_nil
  | revokeCertificate id reason => exact absurd hs List.not_mem_nil
  | unrevokeCertificate id => exact absurd hs List.not_mem_nil
  | setRenewedFrom id p => exact absurd hs List.not_mem_nil
  | recordCARevocation issuer serial reason => exact absurd hs List.not_mem_nil
  | _ => rfl


/-! ## Requests -/

omit [Go.Runtime] in
theorem publicKeyOf_iff {k : PrivateKey} {pub : Pki.PublicKey} :
    Pki.publicKeyOf k = .ok pub ↔ k.Signs ∧ k.publicKey = pub := by
  unfold Pki.publicKeyOf
  split
  · next hk =>
    rw [Except.ok.injEq]
    exact ⟨fun h => ⟨hk, h⟩, And.right⟩
  · next hk => exact ⟨fun h => (nomatch h), fun h => absurd h.1 hk⟩

theorem csrFromKey_iff {k : PrivateKey} {subject : Pki.Subject} {sans : SANSet} {r : Pki.CSR} :
    Pki.csrFromKey k subject sans = .ok r ↔ k.Signs ∧ Pki.requestFor k subject sans = r := by
  unfold Pki.csrFromKey
  split
  · next hk =>
    rw [Except.ok.injEq]
    exact ⟨fun h => ⟨hk, h⟩, And.right⟩
  · next hk => exact ⟨fun h => (nomatch h), fun h => absurd h.1 hk⟩

/-- A key is drawn for a request. -/
theorem generateCSR_returns {subject : Pki.Subject} {sans : SANSet} {kt : Pki.KeyType}
    {x : PrivateKey × Pki.CSR} (h : (Pki.generateCSR subject sans kt).Returns exec w (.ok x) w') :
    (subject.validate = .ok () ∧ x.1.publicKey.kind = kt.kind ∧ x.1.Signs ∧
      x.2 = Pki.requestFor x.1 subject sans) ∧ w = w' := by
  unfold Pki.generateCSR at h
  obtain ⟨_, _, hchecked, h⟩ := returns_bind.mp h
  obtain ⟨hvalid, rfl⟩ := returns_ofExcept.mp hchecked
  obtain ⟨key, _, hdrawn, h⟩ := returns_bind.mp h
  obtain ⟨hkind, rfl⟩ := Pki.generateKey_returns.mp (returns_mapError.mp hdrawn)
  obtain ⟨csr, _, hmade, h⟩ := returns_bind.mp h
  obtain ⟨hcsr, rfl⟩ := returns_ofExcept.mp hmade
  obtain ⟨hsigns, rfl⟩ := csrFromKey_iff.mp hcsr
  obtain ⟨hpair, hw⟩ := returns_pure.mp h
  rw [← hpair]
  exact ⟨⟨hvalid, hkind, hsigns, rfl⟩, hw⟩

/-- A request that is made for a new key. -/
theorem generatedRequest_returns {s : Ca.Service} {i : Ca.IssueInput} {m : Ca.KeyMaterial}
    (h : (s.generatedRequest i).Returns exec w (.ok m) w') :
    (i.subject.validate = .ok () ∧ ∃ kt sans key,
      Pki.parseKeyType (Ca.firstNonEmpty [i.keyType, s.cfg.defaultKeyType]) = .ok kt ∧
      Pki.parseSANs i.sans = .ok sans ∧ key.publicKey.kind = kt.kind ∧ key.Signs ∧
      m = ⟨Pki.requestFor key i.subject sans, some key, kt.text⟩) ∧ w = w' := by
  unfold Ca.Service.generatedRequest at h
  obtain ⟨_, _, hchecked, h⟩ := returns_bind.mp h
  obtain ⟨hvalid, rfl⟩ := returns_ofExcept.mp hchecked
  obtain ⟨kt, _, htype, h⟩ := returns_bind.mp h
  obtain ⟨hkt, rfl⟩ := returns_ofExcept.mp htype
  obtain ⟨sans, _, hparsed, h⟩ := returns_bind.mp h
  obtain ⟨hsans, rfl⟩ := returns_ofExcept.mp hparsed
  obtain ⟨pair, _, hmade, h⟩ := returns_bind.mp h
  obtain ⟨⟨_, hkind, hsigns, hcsr⟩, rfl⟩ := generateCSR_returns hmade
  obtain ⟨hm, hw⟩ := returns_pure.mp h
  refine ⟨⟨hvalid, kt, sans, pair.1, hkt, hsans, hkind, hsigns, ?_⟩, hw⟩
  rw [← hm, ← hcsr]

omit [Go.Runtime] in
theorem keyMatchesCSR_iff {k : PrivateKey} {r : Pki.CSR} :
    Pki.keyMatchesCSR k r = .ok () ↔ k.Signs ∧ k.publicKey = r.publicKey := by
  unfold Pki.keyMatchesCSR Pki.samePublicKey
  rw [Go.bind_eq_ok]
  constructor
  · rintro ⟨pub, hpub, h⟩
    obtain ⟨hsigns, rfl⟩ := publicKeyOf_iff.mp hpub
    split at h
    · next heq => exact ⟨hsigns, heq⟩
    · cases h
  · rintro ⟨hsigns, heq⟩
    exact ⟨_, publicKeyOf_iff.mpr ⟨hsigns, rfl⟩, if_pos heq⟩

omit [Go.Runtime] in
/-- A request that was supplied is taken over as it is, with a key of its own or without. -/
theorem suppliedRequest_eq_ok {i : Ca.IssueInput} {m : Ca.KeyMaterial}
    (h : i.suppliedRequest = .ok m) :
    i.csrPEM = .csr m.csr ∧ m.keyType = Pki.keyTypeOf m.csr.publicKey ∧
      ∀ k, m.key = some k → k.Signs ∧ k.publicKey = m.csr.publicKey := by
  unfold Ca.IssueInput.suppliedRequest at h
  cases hcsr : i.csrPEM with
  | blank =>
    rw [hcsr] at h
    cases h
  | malformed =>
    rw [hcsr] at h
    cases h
  | csr r =>
    rw [hcsr] at h
    cases hkey : i.keyPEM with
    | blank =>
      rw [hkey] at h
      cases h
      exact ⟨rfl, rfl, fun k hk => nomatch hk⟩
    | malformed =>
      rw [hkey] at h
      cases h
    | key k =>
      rw [hkey] at h
      simp only [Pki.parseCSR, Pki.parsePrivateKeyPEM, Except.mapError, bind, Except.bind] at h
      cases hmatch : Pki.keyMatchesCSR k r with
      | error e =>
        rw [hmatch] at h
        cases h
      | ok u =>
        rw [hmatch] at h
        cases h
        refine ⟨rfl, rfl, fun k' hk => ?_⟩
        cases hk
        exact keyMatchesCSR_iff.mp hmatch

/-- The key material of a call: the type is the key's, a key that is known is that of the request,
and the addresses of the request are addresses where those of a request from outside are. -/
theorem keyMaterial_returns {s : Ca.Service} {i : Ca.IssueInput} {m : Ca.KeyMaterial}
    (h : (s.keyMaterial i).Returns exec w (.ok m) w') :
    (m.keyType = Pki.keyTypeOf m.csr.publicKey ∧
      (∀ k, m.key = some k → k.Signs ∧ k.publicKey = m.csr.publicKey) ∧
      ((∀ r, i.csrPEM = .csr r → ∀ ip ∈ r.sans.ips, IsAddress ip) →
        ∀ ip ∈ m.csr.sans.ips, IsAddress ip)) ∧ w = w' := by
  unfold Ca.Service.keyMaterial at h
  split at h
  · obtain ⟨hm, rfl⟩ := returns_ofExcept.mp h
    obtain ⟨hcsr, htype, hkey⟩ := suppliedRequest_eq_ok hm
    exact ⟨⟨htype, hkey, fun hips => hips _ hcsr⟩, rfl⟩
  · obtain ⟨⟨_, kt, sans, key, _, hsans, hkind, hsigns, rfl⟩, rfl⟩ := generatedRequest_returns h
    refine ⟨⟨?_, fun k hk => ?_, fun _ ip hip => Pki.parseSANs_addresses hsans ip hip⟩,
      rfl⟩
    · exact (Pki.keyTypeOf_kind hkind).symm
    · cases hk
      exact ⟨hsigns, rfl⟩
  · exact absurd h not_returns_throw

/-! ## Issue -/

/-- What a call of `issue` that returned went through: the authority `row` that it resolved, the key
material `m`, and the parameters `p` of the signature `c`. -/
structure IssueRun (s : Ca.Service) (i : Ca.IssueInput) (w : World) (row : CA) (m : Ca.KeyMaterial)
    (p : SignParams) (c : X509) : Prop where
  resolved : row ∈ refMatches w.ca.cas i.caRef
  certificate : row.certPEM = some p.issuer
  privateKey : row.keyEnc = some p.issuerKey
  profile : Pki.parseProfile i.profile = .ok p.profile
  material : (s.keyMaterial i).Returns exec w (.ok m) w
  csr : p.csr = m.csr
  sans : i.sanOverride = .ok p.sanOverride
  subject : p.subjectOverride = i.subjectOverride
  days : p.days = issuanceDays s i
  pathLen : p.pathLen = 0
  signed : ∃ t, SignedAt p t c

/-- The row that `createCertificate` inserts. -/
def inserted (c : Certificate) (createdAt : Time) : Certificate :=
  { c with
    createdAt := if c.createdAt = Time.zero then createdAt else c.createdAt
    profile := nz c.profile "server" }

omit [Go.Runtime] in
/-- A row is stored under the number it is given. -/
theorem key_stored (c : Certificate) (id : Nat) : Sql.Keyed.key (c.stored id) = id := rfl

/-- The tables after a certificate was stored. -/
def Store.CaTables.withCertificate (t : CaTables) (c : Certificate) : CaTables :=
  { t with certificates := t.certificates.insert c.stored (key_stored c) }

omit [Go.Runtime] in
theorem get?_withCertificate (t : CaTables) (c : Certificate) :
    (t.withCertificate c).certificates.get? (t.certificates.seq + 1) =
      some (c.stored (t.certificates.seq + 1)) := by
  have h := t.certificates.get?_insert c.stored (key_stored c) (t.certificates.seq + 1)
  rwa [if_pos rfl] at h

omit [Go.Runtime] in
/-- A row that was stored before keeps its number. -/
theorem get?_withCertificate_of_some {t : CaTables} {id : Nat} {old : Certificate}
    (h : t.certificates.get? id = some old) (c : Certificate) :
    (t.withCertificate c).certificates.get? id = some old :=
  Sql.Table.get?_insert_of_some h c.stored (key_stored c)

/-- An insertion succeeds exactly when it violates no constraint. -/
theorem insertCertificate_eq_ok {t : CaTables} {e : Env} {c : Certificate} {id : Nat} :
    (t.exec e (.insertCertificate c)).1 = .ok id ↔
      t.certConflict c = none ∧ id = t.certificates.seq + 1 := by
  unfold CaTables.exec
  dsimp only
  cases t.certConflict c with
  | some text =>
    constructor
    · intro h
      cases h
    · intro h
      cases h.1
  | none =>
    constructor
    · intro h
      exact ⟨rfl, (Except.ok.inj h).symm⟩
    · intro h
      rw [h.2]

theorem insertCertificate_tables {t : CaTables} {c : Certificate} (h : t.certConflict c = none)
    (e : Env) : (t.exec e (.insertCertificate c)).2 = t.withCertificate c := by
  unfold CaTables.exec
  dsimp only
  rw [h]
  rfl

/-- The row of a stored certificate is the one that was inserted. -/
theorem createCertificate_returns {c saved : Certificate}
    (h : (createCertificate c).Returns exec w (.ok saved) w') : ∃ createdAt,
      w.ca.certConflict (inserted c createdAt) = none ∧
      saved = (inserted c createdAt).stored (w.ca.certificates.seq + 1) ∧
      w' = { w with ca := w.ca.withCertificate (inserted c createdAt) } := by
  unfold createCertificate at h
  obtain ⟨t, _, ht, h⟩ := returns_bind.mp h
  obtain ⟨_, rfl⟩ := Pki.now_returns.mp ht
  obtain ⟨id, v, hinsert, hget⟩ := returns_bind.mp h
  obtain ⟨e, _, hx, rfl⟩ := ca_returns (returns_mapError.mp hinsert)
  obtain ⟨hrow, rfl⟩ := getCertificate_returns hget
  obtain ⟨hconflict, rfl⟩ := insertCertificate_eq_ok.mp hx
  have htables := insertCertificate_tables hconflict e
  refine ⟨t, hconflict, ?_, ?_⟩
  · rw [htables, get?_withCertificate] at hrow
    exact (Option.some.inj hrow).symm
  · rw [htables]
    rfl

/-- **What a call of `issue` that returned went through.** -/
theorem issue_returns {s : Ca.Service} {i : Ca.IssueInput} {r : Ca.IssueResult}
    (h : (s.issue i).Returns exec w (.ok r) w') : ∃ row m p c createdAt,
      IssueRun s i w row m p c ∧
      r.certificate = (inserted (i.record row p.profile m c) createdAt).stored
        (w.ca.certificates.seq + 1) ∧
      w'.ca = w.ca.withCertificate (inserted (i.record row p.profile m c) createdAt) := by
  unfold Ca.Service.issue at h
  obtain ⟨⟨row, cert, key⟩, _, hloaded, h⟩ := returns_bind.mp h
  obtain ⟨⟨hresolved, _, hcert, hkey⟩, rfl⟩ := loadIssuer_returns hloaded
  obtain ⟨profile, _, hparsed, h⟩ := returns_bind.mp h
  obtain ⟨hprofile, rfl⟩ := returns_ofExcept.mp hparsed
  obtain ⟨_, _, hchecked, h⟩ := returns_bind.mp h
  obtain ⟨_, rfl⟩ := returns_failIf.mp hchecked
  obtain ⟨m, _, hm, h⟩ := returns_bind.mp h
  obtain ⟨_, rfl⟩ := keyMaterial_returns hm
  obtain ⟨sanOverride, _, hoverride, h⟩ := returns_bind.mp h
  obtain ⟨hsans, rfl⟩ := returns_ofExcept.mp hoverride
  obtain ⟨c, _, hc, h⟩ := returns_bind.mp h
  obtain ⟨hsigned, rfl⟩ := Pki.sign_returns hc
  obtain ⟨saved, _, hstored, h⟩ := returns_bind.mp h
  obtain ⟨createdAt, _, hsaved, rfl⟩ := createCertificate_returns hstored
  obtain ⟨_, v, haudit, h⟩ := returns_bind.mp h
  obtain ⟨chain, v', hchain, h⟩ := returns_bind.mp h
  obtain ⟨rfl, rfl⟩ := returns_pure.mp h
  have hca : v'.ca = _ := (Act.Returns.reads (caChain_uses row).attempt hchain).trans
    (Act.Returns.reads (audit_uses s _ _ _ _) haudit)
  exact ⟨row, m, _, c, createdAt,
    ⟨hresolved, hcert, hkey, hprofile, hm, rfl, hsans, rfl, rfl, rfl, hsigned⟩, hsaved, hca⟩


/-! ## The row of a certificate -/

/-- The row `old` of a certificate that goca signed, in the database `w`: its columns are those of
the certificate, and the row of its authority still holds what signed it. -/
structure Issued (w : World) (issuer : CA) (p : SignParams) (old : Certificate) (c : X509) :
    Prop where
  row : w.ca.certificates.get? old.id = some old
  authority : w.ca.cas.get? old.caID = some issuer
  certificate : issuer.certPEM = some p.issuer
  privateKey : issuer.keyEnc = some p.issuerKey
  signed : ∃ t, SignedAt p t c
  pathLen : p.pathLen = 0
  profile : old.profile = p.profile.text
  pem : old.certPEM = some c
  names : old.sans = c.sans.strings
  keyType : old.keyType = Pki.keyTypeOf c.publicKey
  ownKey : ∀ k, old.keyEnc = some k → k.Signs ∧ k.publicKey = c.publicKey
  notBefore : old.notBefore = c.notBefore
  notAfter : old.notAfter = c.notAfter
  addresses : ∀ ip ∈ c.sans.ips, IsAddress ip

omit [Go.Runtime] in
theorem nz_profile (p : Profile) : nz p.text "server" = p.text := by
  cases p <;> rfl

/-- The addresses of a certificate are addresses where those it is signed for are. -/
theorem sans_addresses {p : SignParams} (hcsr : ∀ ip ∈ p.csr.sans.ips, IsAddress ip)
    (hoverride : ∀ sans, p.sanOverride = some sans → ∀ ip ∈ sans.ips, IsAddress ip) :
    ∀ ip ∈ p.sans.ips, IsAddress ip := by
  have hgiven : ∀ ip ∈ (p.sanOverride.getD p.csr.sans).ips, IsAddress ip := by
    cases hp : p.sanOverride with
    | none => exact hcsr
    | some sans => exact hoverride sans hp
  unfold SignParams.sans
  dsimp only
  split
  · split
    · next hpromoted => exact Pki.parseSANs_addresses hpromoted
    · exact hgiven
  · exact hgiven

/-- Names that override those of a request were read. -/
theorem sanOverride_addresses {i : Ca.IssueInput} {o : Option SANSet} (h : i.sanOverride = .ok o) :
    ∀ sans, o = some sans → ∀ ip ∈ sans.ips, IsAddress ip := by
  unfold Ca.IssueInput.sanOverride at h
  split at h
  · cases hparsed : Pki.parseSANs i.sans with
    | error e =>
      rw [hparsed] at h
      cases h
    | ok sans =>
      rw [hparsed] at h
      cases h
      rintro _ ⟨⟩
      exact Pki.parseSANs_addresses hparsed
  · cases h
    rintro _ ⟨⟩

/-- What a signature takes from the parameters of `sign`. -/
theorem SignedAt.columns {p : SignParams} {t : Time} {c : X509} (h : SignedAt p t c) :
    c.subject = p.subject ∧ c.sans = p.sans ∧ c.publicKey = p.csr.publicKey ∧
      c.notBefore = t - 300 ∧ c.notAfter = t.addDays p.lifetime := by
  obtain ⟨serial, digest, hc⟩ := h.signature
  obtain ⟨-, hsubject, hbefore, hafter, -, -, hsans, -, hkey, -⟩ := Pki.x509CreateCertificate_ok hc
  rw [Pki.template_subject] at hsubject
  rw [Pki.template_notBefore] at hbefore
  rw [Pki.template_notAfter] at hafter
  rw [Pki.template_sans] at hsans
  exact ⟨hsubject, hsans, hkey, hbefore, hafter⟩

/-- **The row that `issue` stores** is that of a certificate goca signed, where the addresses of a
request from outside are addresses. -/
theorem issue_issued {s : Ca.Service} {i : Ca.IssueInput} {r : Ca.IssueResult}
    (hips : ∀ csr, i.csrPEM = .csr csr → ∀ ip ∈ csr.sans.ips, IsAddress ip)
    (h : (s.issue i).Returns exec w (.ok r) w') :
    ∃ issuer p c, Issued w' issuer p r.certificate c := by
  obtain ⟨row, m, p, c, createdAt, hrun, hcert, hca⟩ := issue_returns h
  obtain ⟨t, ht⟩ := hrun.signed
  obtain ⟨_, hsans, hkey, _, _⟩ := SignedAt.columns ht
  obtain ⟨⟨htype, hown, haddresses⟩, _⟩ := keyMaterial_returns hrun.material
  rw [hrun.csr] at hkey
  refine ⟨row, p, c, ?_⟩
  rw [hcert]
  constructor
  · rw [hca]
    exact get?_withCertificate _ _
  · rw [hca]
    exact Sql.Table.get?_of_mem (mem_of_refMatches hrun.resolved)
  · exact hrun.certificate
  · exact hrun.privateKey
  · exact hrun.signed
  · exact hrun.pathLen
  · exact nz_profile _
  · rfl
  · rfl
  · show m.keyType = _
    rw [htype, hkey]
  · intro k hk
    change (if i.storeKey.getD true = true then m.key else none) = some k at hk
    split at hk
    · rw [hkey]
      exact hown k hk
    · cases hk
  · rfl
  · rfl
  · rw [hsans]
    refine sans_addresses ?_ (sanOverride_addresses hrun.sans)
    rw [hrun.csr]
    exact haddresses hips


/-! ## Calls that succeed -/

section Steady

variable {P : Time → Bool} {t : Time}

omit [Go.Runtime] in
theorem pickRow_of_mem {R : Type} {rows : List R} {r : R} (h : r ∈ rows) :
    ∃ pick, pickRow pick rows = some r := by
  obtain ⟨k, hk⟩ := List.getElem?_of_mem h
  obtain ⟨hlt, _⟩ := List.getElem?_eq_some_iff.mp hk
  refine ⟨k, ?_⟩
  unfold pickRow
  rw [Nat.mod_eq_of_lt hlt, hk]

/-- Every authority that a reference matches can come back. -/
theorem returns_getCAByRef {ref : String} {row : CA} (hpos : 0 < t) (ht : P t = true)
    (h : row ∈ refMatches w.ca.cas ref) :
    (getCAByRef ref).Returns (Sem.under exec (steady P)) w (.ok row) w := by
  unfold refMatches at h
  unfold getCAByRef
  dsimp only at h ⊢
  by_cases href : Go.trimSpace ref = ""
  · rw [if_pos href] at h ⊢
    refine returns_mapResult.mpr ⟨.ok (some row), ?_, rfl⟩
    exact returns_ca 0 "" hpos ht (congrArg Except.ok (Option.mem_toList.mp h))
  · rw [if_neg href] at h ⊢
    refine returns_mapResult.mpr ⟨.ok (some row), ?_, rfl⟩
    obtain ⟨pick, hpick⟩ := pickRow_of_mem h
    exact returns_ca pick "" hpos ht (congrArg Except.ok hpick)

theorem returns_checkCanIssue {c : CA} (hpos : 0 < t) (ht : P t = true)
    (h : Ca.canIssue t c = .ok ()) :
    (Ca.checkCanIssue c).Returns (Sem.under exec (steady P)) w (.ok ()) w :=
  returns_bind.mpr ⟨t, w, returns_now hpos ht, returns_ofExcept.mpr ⟨h, rfl⟩⟩

theorem returns_loadIssuer {ref : String} {row : CA} {cert : X509} {key : PrivateKey}
    (hpos : 0 < t) (ht : P t = true) (hresolved : row ∈ refMatches w.ca.cas ref)
    (hcan : Ca.canIssue t row = .ok ()) (hcert : row.certPEM = some cert)
    (hkey : row.keyEnc = some key) :
    (Ca.loadIssuer ref).Returns (Sem.under exec (steady P)) w (.ok (row, cert, key)) w := by
  unfold Ca.loadIssuer
  refine returns_bind.mpr ⟨.ok row, w, ?_, ?_⟩
  · exact returns_attempt.mpr (returns_getCAByRef hpos ht hresolved)
  refine returns_bind.mpr ⟨(), w, returns_checkCanIssue hpos ht hcan, ?_⟩
  refine returns_bind.mpr ⟨cert, w, returns_ofExcept.mpr ⟨?_, rfl⟩, ?_⟩
  · rw [hcert]
    rfl
  refine returns_bind.mpr ⟨key, w, returns_ofExcept.mpr ⟨?_, rfl⟩, returns_pure.mpr ⟨rfl, rfl⟩⟩
  rw [hkey]
  rfl

/-- A request for a new key comes back where the subject is usable and the names are read. -/
theorem returns_generatedRequest {s : Ca.Service} {i : Ca.IssueInput} {kt : Pki.KeyType}
    {sans : SANSet} (hpos : 0 < t) (ht : P t = true) (hvalid : i.subject.validate = .ok ())
    (hkt : Pki.parseKeyType (Ca.firstNonEmpty [i.keyType, s.cfg.defaultKeyType]) = .ok kt)
    (hsans : Pki.parseSANs i.sans = .ok sans) : ∃ key,
    key.publicKey.kind = kt.kind ∧ (s.generatedRequest i).Returns (Sem.under exec (steady P)) w
      (.ok ⟨Pki.requestFor key i.subject sans, some key, kt.text⟩) w := by
  refine ⟨⟨⟨0, kt.kind⟩⟩, rfl, ?_⟩
  have hdrawn : (Pki.generateKey kt).Returns (Sem.under exec (steady P)) w
      (.ok ⟨⟨0, kt.kind⟩⟩) w := by
    refine returns_mapResult.mpr ⟨.ok (.ok _), ?_, rfl⟩
    exact returns_host 0 "" hpos ht rfl
  unfold Ca.Service.generatedRequest
  refine returns_bind.mpr ⟨(), w, returns_ofExcept.mpr ⟨hvalid, rfl⟩, ?_⟩
  refine returns_bind.mpr ⟨kt, w, returns_ofExcept.mpr ⟨hkt, rfl⟩, ?_⟩
  refine returns_bind.mpr ⟨sans, w, returns_ofExcept.mpr ⟨hsans, rfl⟩, ?_⟩
  refine returns_bind.mpr ⟨(⟨⟨0, kt.kind⟩⟩, Pki.requestFor ⟨⟨0, kt.kind⟩⟩ i.subject sans), w, ?_,
    returns_pure.mpr ⟨rfl, rfl⟩⟩
  unfold Pki.generateCSR
  refine returns_bind.mpr ⟨(), w, returns_ofExcept.mpr ⟨hvalid, rfl⟩, ?_⟩
  refine returns_bind.mpr ⟨_, w, returns_mapError.mpr hdrawn, ?_⟩
  refine returns_bind.mpr ⟨_, w, returns_ofExcept.mpr ⟨?_, rfl⟩, returns_pure.mpr ⟨rfl, rfl⟩⟩
  exact csrFromKey_iff.mpr ⟨kt.kind_ne_other, rfl⟩

/-- A row that violates no constraint is stored and comes back. -/
theorem returns_createCertificate {c : Certificate} (hpos : 0 < t) (ht : P t = true)
    (h : w.ca.certConflict (inserted c t) = none) :
    (createCertificate c).Returns (Sem.under exec (steady P)) w
      (.ok ((inserted c t).stored (w.ca.certificates.seq + 1)))
      { w with ca := w.ca.withCertificate (inserted c t) } := by
  unfold createCertificate
  refine returns_bind.mpr ⟨t, w, returns_now hpos ht, ?_⟩
  refine returns_bind.mpr ⟨w.ca.certificates.seq + 1,
    { w with ca := w.ca.withCertificate (inserted c t) }, ?_, ?_⟩
  · have hinsert := returns_ca (w := w) (s := .insertCertificate (inserted c t)) 0 "" hpos ht
      (insertCertificate_eq_ok.mpr ⟨h, rfl⟩)
    rw [insertCertificate_tables h] at hinsert
    exact returns_mapError.mpr hinsert
  · refine returns_mapResult.mpr ⟨.ok (some _), ?_, rfl⟩
    refine returns_ca 0 "" hpos ht ?_
    exact congrArg Except.ok (get?_withCertificate _ _)

omit [Go.Runtime] in
theorem caChainFrom_answerable (fuel : Nat) (cur : CA) :
    (Ca.caChainFrom fuel cur).Uses Answerable := by
  induction fuel generalizing cur with
  | zero => exact uses_pure _
  | succ fuel ih =>
    unfold Ca.caChainFrom
    refine (uses_ofExcept _).bind fun cert => ?_
    split
    · exact uses_pure _
    · refine ((ca_uses trivial).mapResult _).attempt.bind fun parent => ?_
      split
      · exact uses_pure _
      · exact (ih _).bind fun _ => uses_pure _

/-- A caller that keeps the error as a value goes on whatever comes back. -/
theorem returns_attempt_any {ε' : Type} {x : Handler ε' α} (hx : x.Uses Answerable) (hpos : 0 < t)
    (ht : P t = true) (w : World) : ∃ a w',
      (x.attempt : Handler ε (Except ε' α)).Returns (Sem.under exec (steady P)) w (.ok a) w' := by
  obtain ⟨r, w', h⟩ := returns_of_answerable hx hpos ht w
  exact ⟨r, w', returns_attempt.mpr h⟩

/-- An audit entry never stops a call. -/
theorem returns_audit (s : Ca.Service) (actor action target detail : String) (hpos : 0 < t)
    (ht : P t = true) (w : World) : ∃ w',
      (s.audit actor action target detail : Handler ε Unit).Returns (Sem.under exec (steady P)) w
        (.ok ()) w' := by
  obtain ⟨a, v, hrow⟩ := returns_attempt_any (ε := ε) (x := Ca.insertAudit
    (if actor = "" then "system" else actor) action target detail "")
    (.ask trivial fun _ => .pure _) hpos ht w
  unfold Ca.Service.audit Ca.Service.recordAudit
  by_cases hsink : s.hasSink = true
  · refine ⟨v, returns_bind.mpr ⟨a, v, hrow, ?_⟩⟩
    rw [if_pos hsink]
    exact returns_host 0 "" hpos ht rfl
  · refine ⟨v, returns_bind.mpr ⟨a, v, hrow, ?_⟩⟩
    rw [if_neg hsink]
    exact returns_pure.mpr ⟨rfl, rfl⟩

/-- **A call of `issue` succeeds** at a time at which its authority can sign, where the key material
comes back, the names are read, the template can be signed and no constraint is in the way. -/
theorem returns_issue {s : Ca.Service} {i : Ca.IssueInput} {row : CA} {cert c : X509}
    {key : PrivateKey} {profile : Profile} {m : Ca.KeyMaterial} {o : Option SANSet}
    {p : SignParams} {serial : Nat} {digest : String} (hpos : 0 < t) (ht : P t = true)
    (hresolved : row ∈ refMatches w.ca.cas i.caRef) (hcan : Ca.canIssue t row = .ok ())
    (hcert : row.certPEM = some cert) (hkey : row.keyEnc = some key)
    (hprofile : Pki.parseProfile i.profile = .ok profile)
    (hsub : profile = .intermCA → i.allowSubordinateCA = true)
    (hm : (s.keyMaterial i).Returns (Sem.under exec (steady P)) w (.ok m) w)
    (hsans : i.sanOverride = .ok o)
    (hp : p = ⟨m.csr, cert, key, profile, issuanceDays s i, o, i.subjectOverride, 0⟩)
    (hca : cert.isCA = true) (hlive : t.after cert.notAfter = false)
    (hserial : 1 ≤ serial ∧ serial ≤ 2 ^ 127)
    (hfits : (t.addDays p.lifetime).after cert.notAfter = false)
    (hc : Pki.x509CreateCertificate (p.template serial t (t.addDays p.lifetime)) (some cert)
      m.csr.publicKey key digest = .ok c)
    (hfree : w.ca.certConflict (inserted (i.record row profile m c) t) = none) :
    ∃ r w', (s.issue i).Returns (Sem.under exec (steady P)) w (.ok r) w' ∧
      r.certificate = (inserted (i.record row profile m c) t).stored
        (w.ca.certificates.seq + 1) ∧
      w'.ca = w.ca.withCertificate (inserted (i.record row profile m c) t) := by
  subst hp
  have hstored := returns_createCertificate hpos ht hfree
  generalize hsaved : (inserted (i.record row profile m c) t).stored (w.ca.certificates.seq + 1) =
    saved at hstored
  obtain ⟨v, haudit⟩ := returns_audit (ε := Go.Error) (P := P) s i.actor "cert.issue"
    saved.commonName ("serial=" ++ saved.serialHex ++ " ca=" ++ row.name ++ " profile=" ++
      profile.text ++ " days=" ++ toString (issuanceDays s i) ++ " mode=" ++
      i.effectiveMode.text ++ " key_stored=" ++
      Ca.boolText (i.record row profile m c).keyEnc.isSome) hpos ht
    { w with ca := w.ca.withCertificate (inserted (i.record row profile m c) t) }
  obtain ⟨chain, v', hchain⟩ := returns_attempt_any (ε := Go.Error) (P := P)
    (caChainFrom_answerable 16 row) hpos ht v
  refine ⟨⟨saved, if i.effectiveMode = .generate then m.key else none,
    chain.toOption.getD []⟩, v', ?_, rfl, ?_⟩
  · unfold Ca.Service.issue
    refine returns_bind.mpr ⟨_, w, returns_loadIssuer hpos ht hresolved hcan hcert hkey, ?_⟩
    refine returns_bind.mpr ⟨profile, w, returns_ofExcept.mpr ⟨hprofile, rfl⟩, ?_⟩
    refine returns_bind.mpr ⟨(), w, returns_failIf.mpr ⟨fun h => ?_, rfl⟩, ?_⟩
    · rw [hsub h.1] at h
      cases h.2
    refine returns_bind.mpr ⟨m, w, hm, ?_⟩
    refine returns_bind.mpr ⟨o, w, returns_ofExcept.mpr ⟨hsans, rfl⟩, ?_⟩
    refine returns_bind.mpr ⟨c, w, ?_, ?_⟩
    · exact Pki.returns_sign_steady t serial digest hpos ht hca hlive hserial hfits hc
    refine returns_bind.mpr ⟨_, _, hstored, ?_⟩
    refine returns_bind.mpr ⟨(), v, haudit, ?_⟩
    exact returns_bind.mpr ⟨chain, v', hchain, returns_pure.mpr ⟨rfl, rfl⟩⟩
  · exact (Act.Returns.reads (caChain_uses row).attempt hchain.of_under).trans
      (Act.Returns.reads (audit_uses s _ _ _ _) haudit.of_under)

end Steady

end Goca
