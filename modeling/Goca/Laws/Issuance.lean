import Goca.Go.Decimal
import Goca.Laws.Evidence

/-!
# What a signature rests on

Every certificate is signed by `sign` or by `createCA`, and every call of those but one goes
through `issue`. The theorems here say, for each of them, what a call has seen and checked when it
asks for the signature: `SignWarrant` what `sign` checks of its parameters, `IssueWarrant` what
`issue` checks of the authority and the request, `ParentWarrant` what creating a subordinate
authority checks of its parent.

They are stated for every relation `may` between a trace and the next statement: a caller says what
it allows, and owes that the warrant is enough for the signature.
-/

set_option autoImplicit false

namespace Goca

open Goca.Store
open Goca.Pki (PrivateKey PublicKey Template X509 Profile)
open Interleave (Act Prog Pool Trace)
open Interleave.Act

variable [Go.Runtime] {may : Trace sig → Stmt → Prop} {ε α : Type} {q : Trace sig}

/-! ## Package pki -/

/-- What `sign` has checked when it asks for the signature `s`. -/
structure SignWarrant (p : Pki.SignParams) (q : Trace sig) (s : Stmt) : Prop where
  issuerIsCA : p.issuer.isCA = true
  unexpired : ∃ t, Saw q (.host .now) t ∧ t.after p.issuer.notAfter = false
  signature : ∃ serial t, Saw q (.host .newSerial) (.ok serial) ∧ Saw q (.host .now) t ∧
    (t.addDays p.lifetime).after p.issuer.notAfter = false ∧
    s = .host (.createCertificate (p.template serial t (t.addDays p.lifetime)) (some p.issuer)
      p.csr.publicKey p.issuerKey)

/-- The certificate that a signature statement `s` returned. -/
def Signed (q : Trace sig) (s : Stmt) (cert : X509) : Prop :=
  ∃ tmpl parent pub priv, s = .host (.createCertificate tmpl parent pub priv) ∧
    Saw q (.host (.createCertificate tmpl parent pub priv)) (.ok cert)

omit [Go.Runtime] in
theorem Signed.extend {q' : Trace sig} {s : Stmt} {cert : X509} (h : Signed q s cert)
    (hq : q <+: q') : Signed q' s cert := by
  obtain ⟨tmpl, parent, pub, priv, rfl, hsaw⟩ := h
  exact ⟨tmpl, parent, pub, priv, rfl, hsaw.extend hq⟩

omit [Go.Runtime] in
theorem newSerial_saw (h : may q (.host .newSerial)) :
    Pki.newSerial.Traced may (fun q' n => Saw q' (.host .newSerial) (.ok n)) q :=
  hostCall_saw (host_saw h)

omit [Go.Runtime] in
theorem signTemplate_saw {t : Template} {parent : Option X509} {pub : PublicKey}
    {priv : PrivateKey} (h : may q (.host (.createCertificate t parent pub priv))) :
    (Pki.signTemplate t parent pub priv).Traced may
      (fun q' c => Saw q' (.host (.createCertificate t parent pub priv)) (.ok c)) q :=
  hostCall_saw (host_saw h)

theorem sign_traced (p : Pki.SignParams) (hread : AllowsReads may q)
    (hsign : ∀ q' s, q <+: q' → SignWarrant p q' s → may q' s) :
    (Pki.sign p).Traced may
      (fun q' c => ∃ q₁ s, q <+: q₁ ∧ q₁ <+: q' ∧ SignWarrant p q₁ s ∧ Signed q' s c) q := by
  refine traced_failIf_eq.bind fun q₁ _ hq₁ ⟨_, hca⟩ => ?_
  refine (now_saw (hread.extend hq₁).now).bind fun q₂ t₀ hq₂ ht₀ => ?_
  refine traced_failIf_eq.bind fun q₃ _ hq₃ ⟨_, hlive⟩ => ?_
  have hq₀₃ := (hq₁.trans hq₂).trans hq₃
  refine (newSerial_saw (hread q₃ _ hq₀₃ trivial)).bind fun q₄ serial hq₄ hserial => ?_
  refine (now_saw (hread.extend (hq₀₃.trans hq₄)).now).bind fun q₅ t hq₅ ht => ?_
  refine traced_failIf_eq.bind fun q₆ _ hq₆ ⟨_, hfits⟩ => ?_
  have hq₄₆ := hq₅.trans hq₆
  have hq₀₆ := (hq₀₃.trans hq₄).trans hq₄₆
  have hwarrant : SignWarrant p q₆ (.host (.createCertificate (p.template serial t
      (t.addDays p.lifetime)) (some p.issuer) p.csr.publicKey p.issuerKey)) := by
    refine ⟨?_, ⟨t₀, ?_, ?_⟩, ⟨serial, t, hserial.extend hq₄₆, ht.extend hq₆,
      Bool.eq_false_iff.mpr hfits, rfl⟩⟩
    · simpa using hca
    · exact ht₀.extend ((hq₃.trans hq₄).trans hq₄₆)
    · simpa using hlive
  refine Traced.mapError ?_
  refine (Traced.extends (signTemplate_saw (hsign q₆ _ hq₀₆ hwarrant))).mono fun q' c hc => ?_
  obtain ⟨hq', hc⟩ := hc
  exact ⟨q₆, _, hq₀₆, hq', hwarrant, ⟨_, _, _, _, rfl, hc⟩⟩

/-- What `createCA` has checked when it asks for the signature of a CA certificate: the certificate
ends no later than its parent, if it has one. -/
structure AuthorityWarrant (p : Pki.CAParams) (q : Trace sig) (s : Stmt) : Prop where
  signature : ∃ pub priv serial t, Saw q (.host .newSerial) (.ok serial) ∧ Saw q (.host .now) t ∧
    Pki.outruns (p.template pub serial t) p.parent = .ok () ∧
    (∀ parent key, p.parent = some (parent, key) → priv = key) ∧
    s = .host (.createCertificate (p.template pub serial t) (p.parent.map Prod.fst) pub priv)

theorem pkiCreateCA_traced (p : Pki.CAParams) (hread : AllowsReads may q)
    (hsign : ∀ q' s, q <+: q' → AuthorityWarrant p q' s → may q' s) :
    (Pki.createCA p).Traced may (fun q' r => ∃ q₁ s n, q <+: q₁ ∧ q₁ <+: q' ∧
      AuthorityWarrant p q₁ s ∧ Signed q' s r.certificate ∧
      Saw q' (.host .newSerial) (.ok n) ∧ r.serialHex = Pki.serialHex n) q := by
  refine traced_ofExcept_eq.bind fun q₁ _ hq₁ _ => ?_
  have hkey : ((Pki.generateKey p.keyType).mapError fun e =>
      Go.Error.wrap "generate CA key: " e "").Traced may (fun _ _ => True) q₁ :=
    (hread.extend hq₁).traced ((generateKey_uses _).mapError _)
  refine hkey.bind fun q₂ key hq₂ _ => ?_
  have hq₀₂ := hq₁.trans hq₂
  refine (newSerial_saw (hread q₂ _ hq₀₂ trivial)).bind fun q₃ serial hq₃ hserial => ?_
  refine (now_saw (hread.extend (hq₀₂.trans hq₃)).now).bind fun q₄ t hq₄ ht => ?_
  refine traced_ofExcept_eq.bind fun q₅ _ hq₅ ⟨_, houtruns⟩ => ?_
  have hq₃₅ := hq₄.trans hq₅
  have hq₀₅ := (hq₀₂.trans hq₃).trans hq₃₅
  have hwarrant : AuthorityWarrant p q₅ (.host (.createCertificate
      (p.template key.publicKey serial t) (p.parent.map Prod.fst) key.publicKey
      ((p.parent.map Prod.snd).getD key))) := by
    refine ⟨⟨_, _, serial, t, hserial.extend hq₃₅, ht.extend hq₅, houtruns, ?_, rfl⟩⟩
    intro parent k hp
    rw [hp]
    rfl
  refine Traced.bind (Traced.mapError (signTemplate_saw (hsign q₅ _ hq₀₅ hwarrant)))
    fun q₆ cert hq₆ hcert => traced_pure ?_
  exact ⟨q₅, _, serial, hq₀₅, hq₆, hwarrant, ⟨_, _, _, _, rfl, hcert⟩,
    hserial.extend (hq₃₅.trans hq₆), rfl⟩

/-! ## The issuer of an issuance -/

/-- An authority is read under the reference that a request names, or as the default. -/
def AnswersCA (c : CA) (x : (s : Stmt) × s.Ans) : Prop :=
  (∃ ref, x = ⟨.ca (.selectCAByRef ref), .ok (some c)⟩) ∨
    x = ⟨.ca .selectDefaultCA, .ok (some c)⟩

/-- An authority was read. -/
def ReadCA (q : Trace sig) (c : CA) : Prop := ∃ x ∈ q, AnswersCA c x

omit [Go.Runtime] in
theorem ReadCA.extend {q' : Trace sig} {c : CA} (h : ReadCA q c) (hq : q <+: q') :
    ReadCA q' c := h.imp fun _ hx => ⟨hq.subset hx.1, hx.2⟩

/-- An authority was read under this reference, or as the default where it names none. -/
def ReadUnder (ref : String) (q : Trace sig) (c : CA) : Prop :=
  if Go.trimSpace ref = "" then Saw q (.ca .selectDefaultCA) (.ok (some c))
  else Saw q (.ca (.selectCAByRef (Go.trimSpace ref))) (.ok (some c))

omit [Go.Runtime] in
theorem ReadUnder.extend {ref : String} {q' : Trace sig} {c : CA} (h : ReadUnder ref q c)
    (hq : q <+: q') : ReadUnder ref q' c := by
  unfold ReadUnder at *
  by_cases href : Go.trimSpace ref = ""
  · rw [if_pos href] at *
    exact h.extend hq
  · rw [if_neg href] at *
    exact h.extend hq

omit [Go.Runtime] in
theorem ReadUnder.readCA {ref : String} {c : CA} (h : ReadUnder ref q c) : ReadCA q c := by
  unfold ReadUnder at h
  split at h
  · exact ⟨_, h, .inr rfl⟩
  · exact ⟨_, h, .inl ⟨_, rfl⟩⟩

omit [Go.Runtime] in
theorem getCAByRef_named (ref : String) (hread : AllowsReads may q) :
    (getCAByRef ref).Traced may (fun q' c => ReadUnder ref q' c) q := by
  refine traced_ite (fun h => ?_) fun h => ?_
  · refine (row_traced (hread.ca .selectDefaultCA trivial)).mono ?_
    intro q' c hc
    rw [ReadUnder, if_pos h]
    exact hc
  · refine (row_traced (hread.ca (.selectCAByRef _) trivial)).mono ?_
    intro q' c hc
    rw [ReadUnder, if_neg h]
    exact hc

omit [Go.Runtime] in
theorem getCAByRef_saw (ref : String) (hread : AllowsReads may q) :
    (getCAByRef ref).Traced may (fun q' c => ReadCA q' c) q :=
  (getCAByRef_named ref hread).mono fun _ _ h => h.readCA

/-- The authority was read, and by its row it could sign when `checkCanIssue` read the clock. -/
structure IssuerChecked (row : CA) (cert : X509) (key : PrivateKey) (q : Trace sig) : Prop where
  resolved : ReadCA q row
  usable : ∃ t, Saw q (.host .now) t ∧ Ca.canIssue t row = .ok ()
  certificate : row.certPEM = some cert
  privateKey : row.keyEnc = some key

omit [Go.Runtime] in
theorem IssuerChecked.extend {q' : Trace sig} {row : CA} {cert : X509} {key : PrivateKey}
    (h : IssuerChecked row cert key q) (hq : q <+: q') : IssuerChecked row cert key q' := by
  obtain ⟨t, ht, hcan⟩ := h.usable
  exact ⟨h.resolved.extend hq, ⟨t, ht.extend hq, hcan⟩, h.certificate, h.privateKey⟩

omit [Go.Runtime] in
theorem parseCertPEM_ok {p : Pki.CertPEM} {c : X509} (h : Pki.parseCertPEM p = .ok c) :
    p = some c := by
  cases p with
  | none => cases h
  | some c' => cases h; rfl

omit [Go.Runtime] in
theorem decryptKey_ok {k : Option PrivateKey} {key : PrivateKey} (h : Ca.decryptKey k = .ok key) :
    k = some key := by
  cases k with
  | none => cases h
  | some k' => cases h; rfl

omit [Go.Runtime] in
theorem checkCanIssue_traced (c : CA) (hread : AllowsReads may q) :
    (Ca.checkCanIssue c).Traced may
      (fun q' _ => ∃ t, Saw q' (.host .now) t ∧ Ca.canIssue t c = .ok ()) q := by
  refine (now_saw hread.now).bind fun q₁ t _ ht => ?_
  exact traced_ofExcept fun _ hcan => ⟨t, ht, hcan⟩

omit [Go.Runtime] in
theorem loadIssuer_traced (ref : String) (hread : AllowsReads may q) :
    (Ca.loadIssuer ref).Traced may
      (fun q' x => IssuerChecked x.1 x.2.1 x.2.2 q' ∧ ReadUnder ref q' x.1) q := by
  refine Traced.bind (Traced.attempt (getCAByRef_named ref hread) fun q' r _ hr => hr)
    fun q₁ found hq₁ hfound => ?_
  cases found with
  | error e =>
    refine traced_ite (fun _ => ?_) fun _ => traced_throw
    exact ((hread.extend hq₁).traced (noIssuerError_uses ref)).bind fun _ _ _ _ => traced_throw
  | ok row =>
    refine (checkCanIssue_traced row (hread.extend hq₁)).bind fun q₂ _ hq₂ hcan => ?_
    refine traced_ofExcept_eq.bind fun q₃ cert hq₃ ⟨_, hcert⟩ => ?_
    refine traced_ofExcept_eq.bind fun q₄ key hq₄ ⟨_, hkey⟩ => traced_pure ?_
    have hq₂₄ := hq₃.trans hq₄
    obtain ⟨t, ht, hcan⟩ := hcan
    have hnamed := (hfound row rfl).extend (hq₂.trans hq₂₄)
    exact ⟨⟨hnamed.readCA, ⟨t, ht.extend hq₂₄, hcan⟩, parseCertPEM_ok (mapError_ok hcert),
      decryptKey_ok (mapError_ok hkey)⟩, hnamed⟩

/-! ## Issue -/

/-- The days that `issue` signs for. -/
def issuanceDays (s : Ca.Service) (i : Ca.IssueInput) : Int :=
  if i.days ≤ 0 then s.cfg.defaultCertDays else i.days

/-- What `issue` has checked when it signs with the parameters `p` under the authority `row`. -/
structure IssueWarrant (s : Ca.Service) (i : Ca.IssueInput) (row : CA) (p : Pki.SignParams)
    (q : Trace sig) : Prop where
  issuer : IssuerChecked row p.issuer p.issuerKey q
  named : ReadUnder i.caRef q row
  profile : Pki.parseProfile i.profile = .ok p.profile
  subordinate : p.profile = .intermCA → i.allowSubordinateCA = true
  request : i.effectiveMode = .csr → ∃ m, i.suppliedRequest = .ok m ∧ p.csr = m.csr
  sans : i.sanOverride = .ok p.sanOverride
  subject : p.subjectOverride = i.subjectOverride
  days : p.days = issuanceDays s i

/-- What the row of an issued certificate rests on: the certificate was signed, under a warrant, by
the authority that the row names. -/
def RecordWarrant (s : Ca.Service) (i : Ca.IssueInput) (q : Trace sig) (c : Certificate) : Prop :=
  ∃ row p q₁ st cert, q₁ <+: q ∧ IssueWarrant s i row p q₁ ∧ SignWarrant p q₁ st ∧
    Signed q st cert ∧ c.caID = row.id ∧ c.serialHex = Pki.serialHex cert.serialNumber ∧
    c.certPEM = some cert ∧
    c.status = .active

/-- A certificate was stored under the number `n` and read back as `c`. -/
def Stored (q : Trace sig) (n : Nat) (c : Certificate) : Prop :=
  (∃ c₀, Saw q (.ca (.insertCertificate c₀)) (.ok n)) ∧
    Saw q (.ca (.selectCertificate n)) (.ok (some c))

omit [Go.Runtime] in
theorem Stored.extend {q' : Trace sig} {n : Nat} {c : Certificate} (h : Stored q n c)
    (hq : q <+: q') : Stored q' n c :=
  ⟨h.1.imp fun _ hc => hc.extend hq, h.2.extend hq⟩

theorem keyMaterial_traced (s : Ca.Service) (i : Ca.IssueInput) (hread : AllowsReads may q) :
    (s.keyMaterial i).Traced may
      (fun _ m => i.effectiveMode = .csr → i.suppliedRequest = .ok m) q := by
  by_cases hmode : i.effectiveMode = .csr
  · have heq : s.keyMaterial i = .ofExcept i.suppliedRequest := by
      unfold Ca.Service.keyMaterial
      rw [hmode]
    rw [heq]
    exact traced_ofExcept fun m hm _ => hm
  · exact (hread.traced (keyMaterial_uses s i)).mono fun _ _ _ h => absurd h hmode

omit [Go.Runtime] in
theorem createCertificate_traced (c : Certificate) (hread : AllowsReads may q)
    (hinsert : ∀ q' c', q <+: q' → c'.caID = c.caID → c'.serialHex = c.serialHex →
      c'.certPEM = c.certPEM → c'.status = c.status → may q' (.ca (.insertCertificate c'))) :
    (createCertificate c).Traced may (fun q' saved => ∃ n, Stored q' n saved) q := by
  refine (now_saw hread.now).bind fun q₁ t hq₁ _ => ?_
  refine Traced.bind (Traced.mapError (ca_saw (hinsert q₁ _ hq₁ rfl rfl rfl rfl)))
    fun q₂ n hq₂ hn => ?_
  have hread₂ := hread.extend (hq₁.trans hq₂)
  have hget := row_traced (hread₂.ca (.selectCertificate n) trivial)
  exact (Traced.extends hget).mono fun q' saved hsaved =>
    ⟨n, ⟨_, hn.extend hsaved.1⟩, hsaved.2⟩

/-- **Issue**: every signature rests on the warrant of `issue`, and every stored row on a signature.
The result is the row as it was read back. -/
theorem issue_traced (s : Ca.Service) (i : Ca.IssueInput) (hread : AllowsReads may q)
    (hsign : ∀ q' row p st, q <+: q' → IssueWarrant s i row p q' → SignWarrant p q' st → may q' st)
    (hinsert : ∀ q' c, q <+: q' → RecordWarrant s i q' c → may q' (.ca (.insertCertificate c))) :
    (s.issue i).Traced may (fun q' r => ∃ n, Stored q' n r.certificate) q := by
  refine (loadIssuer_traced i.caRef hread).bind fun q₁ x hq₁ hloaded => ?_
  obtain ⟨row, cert, key⟩ := x
  obtain ⟨hissuer, hnamed⟩ := hloaded
  refine traced_ofExcept_eq.bind fun q₂ profile hq₂ ⟨_, hprofile⟩ => ?_
  refine traced_failIf_eq.bind fun q₃ _ hq₃ ⟨_, hsub⟩ => ?_
  have hq₀₃ := (hq₁.trans hq₂).trans hq₃
  refine (keyMaterial_traced s i (hread.extend hq₀₃)).bind fun q₄ m hq₄ hm => ?_
  refine traced_ofExcept_eq.bind fun q₅ sanOverride hq₅ ⟨_, hsans⟩ => ?_
  have hq₁₅ := ((hq₂.trans hq₃).trans hq₄).trans hq₅
  have hq₀₅ := hq₁.trans hq₁₅
  have hissue {q' : Trace sig} (hq' : q₅ <+: q') : IssueWarrant s i row {
      csr := m.csr
      issuer := cert
      issuerKey := key
      profile := profile
      days := if i.days ≤ 0 then s.cfg.defaultCertDays else i.days
      sanOverride := sanOverride
      subjectOverride := i.subjectOverride } q' := by
    refine ⟨hissuer.extend (hq₁₅.trans hq'), hnamed.extend (hq₁₅.trans hq'), hprofile,
      fun hp => ?_, fun hcsr => ?_, hsans, rfl, rfl⟩
    · by_contra hno
      exact hsub ⟨hp, by simpa using hno⟩
    · exact ⟨m, hm hcsr, rfl⟩
  refine (sign_traced _ (hread.extend hq₀₅) fun q' st hq' hst =>
    hsign q' row _ st (hq₀₅.trans hq') (hissue hq') hst).bind fun q₆ cert' hq₆ hcert' => ?_
  obtain ⟨q₇, st, hq₇, hq₇₆, hst, hsigned⟩ := hcert'
  refine (createCertificate_traced _ (hread.extend (hq₀₅.trans hq₆)) ?_).bind
    fun q₈ saved hq₈ hsaved => ?_
  · intro q' c' hq' hca hserial hpem hstatus
    refine hinsert q' c' ((hq₀₅.trans hq₆).trans hq') ?_
    exact ⟨row, _, q₇, st, cert', hq₇₆.trans hq', hissue hq₇, hst, hsigned.extend hq', hca,
      hserial, hpem, hstatus⟩
  obtain ⟨n, hsaved⟩ := hsaved
  have hread₈ := hread.extend ((hq₀₅.trans hq₆).trans hq₈)
  refine (hread₈.traced (audit_uses s _ _ _ _)).bind fun q₉ _ hq₉ _ => ?_
  refine ((hread₈.extend hq₉).traced (caChain_uses row).attempt).bind fun q₁₀ chain hq₁₀ _ => ?_
  exact traced_pure ⟨n, hsaved.extend (hq₉.trans hq₁₀)⟩

/-! ## Renew -/

/-- The issuer of a certificate was looked up, and it was not there or could not sign. -/
def IssuerUnable (old : Certificate) (q : Trace sig) : Prop :=
  (∃ r, (∀ c, r ≠ .ok (some c)) ∧ Saw q (.ca (.selectCA old.caID)) r) ∨
    ∃ q₁ issuer t e, q₁ ++ [⟨.ca (.selectCA old.caID), .ok (some issuer)⟩, ⟨.host .now, t⟩] <+: q ∧
      Ca.canIssue t issuer = .error e

/-- The reference that a renewal hands to `issue`: the requested one, the number of the issuer, or
none where the issuer cannot sign. -/
def RenewalRef (i : Ca.RenewInput) (old : Certificate) (caRef : String) (q : Trace sig) : Prop :=
  (Go.trimSpace i.caRef ≠ "" ∧ caRef = Go.trimSpace i.caRef) ∨
    (caRef = "" ∧ IssuerUnable old q) ∨
    ∃ issuer, Saw q (.ca (.selectCA old.caID)) (.ok (some issuer)) ∧ caRef = toString issuer.id

omit [Go.Runtime] in
theorem RenewalRef.extend {i : Ca.RenewInput} {old : Certificate} {caRef : String} {q' : Trace sig}
    (h : RenewalRef i old caRef q) (hq : q <+: q') : RenewalRef i old caRef q' := by
  rcases h with h | ⟨hnone, h⟩ | ⟨issuer, hsaw, h⟩
  · exact .inl h
  · refine .inr (.inl ⟨hnone, ?_⟩)
    rcases h with ⟨r, hr, hsaw⟩ | ⟨q₁, issuer, t, e, hpre, hcan⟩
    · exact .inl ⟨r, hr, hsaw.extend hq⟩
    · exact .inr ⟨q₁, issuer, t, e, hpre.trans hq, hcan⟩
  · exact .inr (.inr ⟨issuer, hsaw.extend hq, h⟩)

/-- What `renew` has read when it hands the request `i'` to `issue`. -/
structure RenewWarrant (id : Nat) (i : Ca.RenewInput) (i' : Ca.IssueInput) (q : Trace sig) :
    Prop where
  read : ∃ old, Saw q (.ca (.selectCertificate id)) (.ok (some old)) ∧
    RenewalRef i old i'.caRef q

omit [Go.Runtime] in
theorem RenewWarrant.extend {id : Nat} {i : Ca.RenewInput} {i' : Ca.IssueInput} {q' : Trace sig}
    (h : RenewWarrant id i i' q) (hq : q <+: q') : RenewWarrant id i i' q' := by
  obtain ⟨old, hold, href⟩ := h.read
  exact ⟨old, hold.extend hq, href.extend hq⟩

omit [Go.Runtime] in
theorem renewalIssuer_traced (i : Ca.RenewInput) (old : Certificate) (hread : AllowsReads may q) :
    (Ca.renewalIssuer i old).Traced may (fun q' caRef => RenewalRef i old caRef q') q := by
  refine traced_ite (fun h => traced_pure (.inl ⟨h, rfl⟩)) fun _ => ?_
  refine Prog.traced_ask.mpr ⟨hread q _ List.prefix_rfl trivial, ?_⟩
  intro x
  have hsaw := saw_snoc q (.ca (.selectCA old.caID)) x
  have hmissing (hx : ∀ c, x ≠ .ok (some c)) : IssuerUnable old
      (q ++ [(⟨.ca (.selectCA old.caID), x⟩ : (s : Stmt) × s.Ans)]) := .inl ⟨x, hx, hsaw⟩
  match x with
  | .error e =>
    refine Prog.traced_pure.mpr ?_
    rintro _ ⟨⟩
    exact .inr (.inl ⟨rfl, hmissing fun _ h => nomatch h⟩)
  | .ok none =>
    refine Prog.traced_pure.mpr ?_
    rintro _ ⟨⟩
    exact .inr (.inl ⟨rfl, hmissing fun _ h => nomatch h⟩)
  | .ok (some issuer) =>
    refine Prog.traced_ask.mpr ⟨hread _ _ (List.prefix_append q _) trivial, ?_⟩
    intro t
    refine Prog.traced_pure.mpr ?_
    rintro caRef hcaRef
    cases hcan : Ca.canIssue t issuer with
    | ok a =>
      refine .inr (.inr ⟨issuer, hsaw.extend (List.prefix_append _ _), ?_⟩)
      rw [hcan] at hcaRef
      exact (Except.ok.inj hcaRef).symm
    | error e =>
      refine .inr (.inl ⟨?_, .inr ⟨q, issuer, t, e, ?_, hcan⟩⟩)
      · rw [hcan] at hcaRef
        exact (Except.ok.inj hcaRef).symm
      · rw [List.append_assoc]
        exact List.prefix_rfl

/-- The request of a renewal names the authority that was chosen for it. -/
theorem caRef_of_renewalRequest {s : Ca.Service} {i : Ca.RenewInput} {old : Certificate}
    {caRef : String} {days : Int} {subject : Pki.Subject} {i' : Ca.IssueInput}
    (h : Ca.renewalRequest s i old caRef days subject = .ok i') : i'.caRef = caRef := by
  unfold Ca.renewalRequest at h
  split at h
  · obtain ⟨key, _, h⟩ := Go.bind_eq_ok.mp h
    obtain ⟨sans, _, h⟩ := Go.bind_eq_ok.mp h
    obtain ⟨csr, _, h⟩ := Go.bind_eq_ok.mp h
    cases h
    rfl
  · cases h
    rfl

/-- **Renew** signs and stores through `issue` alone, under the reference it has chosen. -/
theorem renew_traced (s : Ca.Service) (id : Nat) (i : Ca.RenewInput)
    (hallow : Allows [.setRenewedFrom, .revokeCertificate] may q)
    (hsign : ∀ q' i' row p st, q <+: q' → RenewWarrant id i i' q' → IssueWarrant s i' row p q' →
      SignWarrant p q' st → may q' st)
    (hinsert : ∀ q' i' c, q <+: q' → RenewWarrant id i i' q' → RecordWarrant s i' q' c →
      may q' (.ca (.insertCertificate c))) :
    (s.renew id i).Traced may (fun _ _ => True) q := by
  have hread := hallow.reads
  have hget : (getCertificate id).Traced may _ q :=
    row_traced (hread.ca (.selectCertificate id) trivial)
  refine hget.bind fun q₁ old hq₁ hold => ?_
  refine (renewalIssuer_traced i old (hread.extend hq₁)).bind fun q₂ caRef hq₂ href => ?_
  refine traced_ofExcept_eq.bind fun q₃ subject hq₃ _ => ?_
  refine traced_ofExcept_eq.bind fun q₄ request hq₄ ⟨_, hrequest⟩ => ?_
  have hq₂₄ := hq₃.trans hq₄
  have hq₀₄ := (hq₁.trans hq₂).trans hq₂₄
  have hwarrant : RenewWarrant id i request q₄ := by
    refine ⟨old, hold.extend (hq₂.trans hq₂₄), ?_⟩
    rw [caRef_of_renewalRequest hrequest]
    exact href.extend hq₂₄
  refine (issue_traced s request (hread.extend hq₀₄)
    (fun q' row p st hq' => hsign q' request row p st (hq₀₄.trans hq') (hwarrant.extend hq'))
    fun q' c hq' => hinsert q' request c (hq₀₄.trans hq') (hwarrant.extend hq')).bind
    fun q₅ res hq₅ _ => ?_
  have hallow₅ := hallow.extend (hq₀₄.trans hq₅)
  refine Traced.bind (hallow₅.ca (.setRenewedFrom _ _) List.mem_cons_self) fun q₆ _ hq₆ _ => ?_
  refine ((hallow₅.extend hq₆).traced (revokeOldIf_uses
    (P := Within [.setRenewedFrom, .revokeCertificate])
    (fun _ => List.mem_cons_of_mem _ (List.mem_singleton_self _)) _ _ _)).bind
    fun q₇ revokedOld hq₇ _ => ?_
  refine ((hallow₅.reads.extend (hq₆.trans hq₇)).traced (audit_uses s _ _ _ _)).bind
    fun _ _ _ _ => traced_pure trivial

theorem renewEach_traced (s : Ca.Service) (i : Ca.RenewInput) (certs : List Certificate)
    (hallow : Allows [.setRenewedFrom, .revokeCertificate] may q)
    (hsign : ∀ q' i' row p st, q <+: q' → IssueWarrant s i' row p q' → SignWarrant p q' st →
      may q' st)
    (hinsert : ∀ q' i' c, q <+: q' → RecordWarrant s i' q' c →
      may q' (.ca (.insertCertificate c))) :
    (s.renewEach i certs : Handler ε _).Traced may (fun _ _ => True) q := by
  induction certs generalizing q with
  | nil => exact traced_pure trivial
  | cons c rest ih =>
    refine Traced.bind ((renew_traced s c.id i hallow
      (fun q' i' row p st hq' _ => hsign q' i' row p st hq')
      fun q' i' c hq' _ => hinsert q' i' c hq').attempt fun _ _ _ _ => trivial)
      fun q₁ res hq₁ _ => ?_
    refine (ih (hallow.extend hq₁) (fun q' i' row p st hq' => hsign q' i' row p st (hq₁.trans hq'))
      fun q' i' c hq' => hinsert q' i' c (hq₁.trans hq')).bind fun _ _ _ _ => traced_pure trivial

theorem renewExpiring_traced (s : Ca.Service) (withinDays : Int) (i : Ca.RenewInput)
    (hallow : Allows [.setRenewedFrom, .revokeCertificate] may q)
    (hsign : ∀ q' i' row p st, q <+: q' → IssueWarrant s i' row p q' → SignWarrant p q' st →
      may q' st)
    (hinsert : ∀ q' i' c, q <+: q' → RecordWarrant s i' q' c →
      may q' (.ca (.insertCertificate c))) :
    (s.renewExpiring withinDays i : Handler ε _).Traced may (fun _ _ => True) q := by
  refine (hallow.reads.traced (searchCertificates_uses _).attempt).bind fun q₁ due hq₁ _ => ?_
  cases due with
  | error e => exact traced_pure trivial
  | ok due =>
    exact renewEach_traced s i due.1 (hallow.extend hq₁)
      (fun q' i' row p st hq' => hsign q' i' row p st (hq₁.trans hq'))
      fun q' i' c hq' => hinsert q' i' c (hq₁.trans hq')

/-! ## Slugs -/

/-- A slug: lower-case letters, digits and hyphens, and at least one of them. -/
def IsSlug (s : String) : Prop :=
  s ≠ "" ∧ ∀ c ∈ s.toList, Ca.isSlugRune c = true ∨ c = '-'

omit [Go.Runtime] in
theorem isSlug_hyphenate (inRun : Bool) (l : List Char) :
    ∀ c ∈ Ca.hyphenate inRun l, Ca.isSlugRune c = true ∨ c = '-' := by
  induction l generalizing inRun with
  | nil =>
    intro c hc
    cases hc
  | cons a l ih =>
    intro c hc
    unfold Ca.hyphenate at hc
    by_cases ha : Ca.isSlugRune a = true
    · rw [if_pos ha] at hc
      rcases List.mem_cons.mp hc with rfl | hc
      · exact .inl ha
      · exact ih false c hc
    · rw [if_neg ha] at hc
      cases inRun with
      | true => exact ih true c hc
      | false =>
        rcases List.mem_cons.mp hc with rfl | hc
        · exact .inr rfl
        · exact ih true c hc

theorem isSlug_slugify (s : String) : IsSlug (Ca.slugify s) := by
  unfold Ca.slugify
  dsimp only
  generalize hout : Go.trim _ "-" = out
  have hrunes : ∀ c ∈ out.toList, Ca.isSlugRune c = true ∨ c = '-' := by
    intro c hc
    rw [← hout, Go.trim, String.toList_ofList] at hc
    have hc := Go.mem_of_mem_trimRunes hc
    rw [String.toList_ofList] at hc
    exact isSlug_hyphenate _ _ c hc
  have hbase : IsSlug (if out = "" then "ca" else out) := by
    by_cases hempty : out = ""
    · rw [if_pos hempty]
      refine ⟨by decide, ?_⟩
      intro c hc
      rcases List.mem_cons.mp hc with rfl | hc
      · exact .inl (by decide)
      · cases List.mem_singleton.mp hc
        exact .inl (by decide)
    · rw [if_neg hempty]
      exact ⟨hempty, hrunes⟩
  generalize (if out = "" then "ca" else out) = base at hbase
  refine ⟨?_, ?_⟩
  · intro hnil
    refine hbase.1 (String.toList_inj.mp ?_)
    have htake := congrArg String.toList hnil
    rw [String.toList_ofList] at htake
    rcases List.take_eq_nil_iff.mp htake with h | h
    · cases h
    · exact h
  · intro c hc
    rw [String.toList_ofList] at hc
    exact hbase.2 c (List.mem_of_mem_take hc)

omit [Go.Runtime] in
theorem isSlugRune_of_isDigit {c : Char} (h : c.isDigit = true) : Ca.isSlugRune c = true := by
  unfold Ca.isSlugRune
  rw [Bool.or_eq_true]
  exact .inr h

omit [Go.Runtime] in
/-- A slug with a number behind it is a slug. -/
theorem isSlug_numbered {base number : String} (h : IsSlug base)
    (hn : ∀ c ∈ number.toList, Ca.isSlugRune c = true ∨ c = '-') :
    IsSlug (base ++ "-" ++ number) := by
  refine ⟨?_, ?_⟩
  · intro hnil
    have hlist := congrArg String.toList hnil
    rw [String.toList_append, String.toList_append] at hlist
    have hbase := (List.append_eq_nil_iff.mp (List.append_eq_nil_iff.mp hlist).1).1
    exact h.1 (String.toList_inj.mp hbase)
  · intro c hc
    rw [String.toList_append, String.toList_append] at hc
    rcases List.mem_append.mp hc with hc | hc
    · rcases List.mem_append.mp hc with hc | hc
      · exact h.2 c hc
      · exact .inr (List.mem_singleton.mp hc)
    · exact hn c hc

omit [Go.Runtime] in
theorem isSlug_nat {base : String} (h : IsSlug base) (n : Nat) :
    IsSlug (base ++ "-" ++ toString n) :=
  isSlug_numbered h fun _ hc => .inl (isSlugRune_of_isDigit (Go.isDigit_of_mem_toString hc))

omit [Go.Runtime] in
theorem isSlug_int {base : String} (h : IsSlug base) (n : Int) :
    IsSlug (base ++ "-" ++ toString n) := by
  refine isSlug_numbered h ?_
  intro c hc
  cases n with
  | ofNat n => exact .inl (isSlugRune_of_isDigit (Go.isDigit_of_mem_toString (n := n) hc))
  | negSucc n =>
    change c ∈ ("-" ++ toString (n + 1)).toList at hc
    rw [String.toList_append] at hc
    rcases List.mem_append.mp hc with hc | hc
    · exact .inr (List.mem_singleton.mp hc)
    · exact .inl (isSlugRune_of_isDigit (Go.isDigit_of_mem_toString hc))

omit [Go.Runtime] in
theorem uniqueSlugLoop_traced {base : String} (hbase : IsSlug base) (fuel i : Nat) {slug : String}
    (hslug : IsSlug slug) (hread : AllowsReads may q) :
    (Ca.uniqueSlugLoop base fuel i slug : Handler ε String).Traced may
      (fun _ slug => IsSlug slug) q := by
  induction fuel generalizing i slug q with
  | zero => exact (now_saw hread.now).bind fun _ t _ _ => traced_pure (isSlug_int hbase _)
  | succ fuel ih =>
    have hfound : (getCABySlug slug).Uses (Within []) := (ca_uses trivial).mapResult _
    refine (hread.traced hfound.attempt).bind fun q₁ found hq₁ _ => ?_
    have hnext := ih (i + 1) (isSlug_nat hbase i) (hread.extend hq₁)
    cases found with
    | error e => exact traced_ite (fun _ => traced_pure hslug) fun _ => hnext
    | ok c => exact hnext

/-- What `uniqueSlug` returns is a slug. -/
theorem uniqueSlug_traced (name : String) (hread : AllowsReads may q) :
    (Ca.uniqueSlug name : Handler ε String).Traced may (fun _ slug => IsSlug slug) q :=
  uniqueSlugLoop_traced (isSlug_slugify name) 98 2 (isSlug_slugify name) hread

/-! ## Creating an authority -/

/-- What `CreateCA` knows of a parent: it read its row, which holds a certificate and a key. -/
def ParentRead (parent : Option Ca.Parent) (q : Trace sig) : Prop :=
  ∀ row cert key, parent = some (row, cert, key) →
    ReadCA q row ∧ row.certPEM = some cert ∧ row.keyEnc = some key

/-- What `CreateCA` has checked when it asks for a signature over so many days. Unlike
`IssuerChecked`, it does not say that the parent is active. -/
def ParentWarrant (days : Int) (q : Trace sig) (s : Stmt) : Prop :=
  ∃ p parent, AuthorityWarrant p q s ∧ p.days = days ∧ p.parent = Option.map Prod.snd parent ∧
    ParentRead parent q

/-- What is stored as an authority: one that waits for its certificate and has no serial yet, or an
active one with a certificate and the text of a serial number. -/
def AuthorityRow (c : CA) : Prop :=
  (c.status = .pending ∧ c.certPEM = none ∧ c.serialHex = "") ∨
    (c.status = .active ∧ c.certPEM.isSome = true ∧ ∃ n, c.serialHex = Pki.serialHex n)

omit [Go.Runtime] in
theorem loadParent_traced (parentRef : String) (hread : AllowsReads may q) :
    (Ca.loadParent parentRef).Traced may (fun q' parent => ParentRead parent q') q := by
  have hnone (q' : Trace sig) : ParentRead none q' := fun _ _ _ h => nomatch h
  unfold Ca.loadParent
  refine traced_ite (fun _ => ?_) fun _ => traced_pure (hnone q)
  refine Traced.bind (Traced.mapError (getCAByRef_saw _ hread)) fun q₁ row hq₁ hrow => ?_
  refine traced_ofExcept_eq.bind fun q₂ cert hq₂ ⟨_, hcert⟩ => ?_
  refine traced_ofExcept_eq.bind fun q₃ key hq₃ ⟨_, hkey⟩ => traced_pure ?_
  rintro _ _ _ ⟨⟩
  exact ⟨hrow.extend (hq₂.trans hq₃), parseCertPEM_ok (mapError_ok hcert),
    decryptKey_ok (mapError_ok hkey)⟩

omit [Go.Runtime] in
/-- Storing an authority stores its row, with or without the default marker. -/
theorem createCA_traced (c : CA) (hread : AllowsReads may q)
    (hinsert : ∀ q' c', q <+: q' → (∃ b, c' = { c with isDefault := b }) →
      may q' (.ca (.insertCA c'))) :
    (Store.createCA c).Traced may (fun _ _ => True) q := by
  have hmark : (markDefault c).Traced may (fun _ c' => ∃ b, c' = { c with isDefault := b }) q := by
    refine traced_ite (fun _ => ?_) fun _ => traced_pure ⟨c.isDefault, rfl⟩
    refine ((hread.traced (ca_uses trivial : countIssuingCAs.Uses _).attempt)).bind
      fun q₁ n _ _ => traced_pure ?_
    match n with
    | .ok 0 => exact ⟨true, rfl⟩
    | .ok (_ + 1) => exact ⟨c.isDefault, rfl⟩
    | .error _ => exact ⟨c.isDefault, rfl⟩
  refine hmark.bind fun q₁ c' hq₁ hc' => ?_
  refine Traced.bind (Traced.mapError (ca_saw (hinsert q₁ c' hq₁ hc'))) fun q₂ id hq₂ _ => ?_
  exact (hread.extend (hq₁.trans hq₂)).traced (getCA_uses id)

/-- The parent that a row names was read, and has a certificate. -/
def ParentNamed (q : Trace sig) (c : CA) : Prop :=
  ∀ p, c.parentID = some p → ∃ row, ReadCA q row ∧ row.id = p ∧ row.certPEM.isSome = true

/-- **Creating an authority**: the signature rests on the warrant of its parent, and the row that is
stored is that of an active authority under that parent. -/
theorem serviceCreateCA_traced (s : Ca.Service) (i : Ca.CreateCAInput)
    (hallow : Allows [.setDefaultCA] may q)
    (hsign : ∀ q' st, q <+: q' →
      ParentWarrant (if i.days ≤ 0 then s.cfg.defaultCADays else i.days) q' st → may q' st)
    (hinsert : ∀ q' c, q <+: q' → AuthorityRow c → IsSlug c.slug → ParentNamed q' c →
      may q' (.ca (.insertCA c))) :
    (s.createCA i).Traced may (fun _ _ => True) q := by
  have hread := hallow.reads
  refine traced_failIf_eq.bind fun q₁ _ hq₁ _ => ?_
  refine traced_ofExcept_eq.bind fun q₂ _ hq₂ _ => ?_
  refine traced_ofExcept_eq.bind fun q₃ kt hq₃ _ => ?_
  have hq₀₃ := (hq₁.trans hq₂).trans hq₃
  refine (loadParent_traced _ (hread.extend hq₀₃)).bind fun q₄ parent hq₄ hparent => ?_
  have hq₀₄ := hq₀₃.trans hq₄
  have hparentRead {q' : Trace sig} (hq' : q₄ <+: q') : ParentRead parent q' := by
    intro row cert key h
    obtain ⟨hrow, hrest⟩ := hparent row cert key h
    exact ⟨hrow.extend hq', hrest⟩
  refine (pkiCreateCA_traced _ (hread.extend hq₀₄) fun q' st hq' hst =>
    hsign q' st (hq₀₄.trans hq') ⟨_, parent, hst, rfl, rfl, hparentRead hq'⟩).bind
    fun q₅ res hq₅ hres => ?_
  obtain ⟨_, _, n, _, _, _, _, _, hserial⟩ := hres
  refine (uniqueSlug_traced _ (hread.extend (hq₀₄.trans hq₅))).bind fun q₆ slug hq₆ hslug => ?_
  have hq₀₆ := (hq₀₄.trans hq₅).trans hq₆
  refine (createCA_traced _ (hread.extend hq₀₆) ?_).bind fun q₇ saved hq₇ _ => ?_
  · rintro q' c' hq' ⟨b, rfl⟩
    refine hinsert q' _ (hq₀₆.trans hq') (.inr ⟨rfl, rfl, n, hserial⟩) hslug ?_
    intro p hp
    obtain ⟨⟨row, cert, key⟩, hsome, hid⟩ := Option.map_eq_some_iff.mp hp
    obtain ⟨hrow, hcert, _⟩ := hparentRead ((hq₅.trans hq₆).trans hq') row cert key hsome
    exact ⟨row, hrow, hid, by rw [hcert]; rfl⟩
  have hq₀₇ := hq₀₆.trans hq₇
  refine ((hallow.extend hq₀₇).traced (makeDefaultIf_uses (by decide) _ saved)).bind
    fun q₈ saved hq₈ _ => ?_
  exact ((hread.extend (hq₀₇.trans hq₈)).traced (audit_uses s _ _ _ _)).bind
    fun _ _ _ _ => traced_pure trivial

end Goca
