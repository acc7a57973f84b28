import Goca.Laws.FetchAgreement

/-!
# What a fetch releases

A fetch looks a name up three times: to find the secret, to read its bindings, and to read its
content. Nothing holds the name in between, so whoever deletes a secret and creates another one
under its name can have the bindings of the first looked at and the content of the second released.
In every run that is all that can go wrong: what is released comes from a secret of the name that
was asked for, which was enabled when it was read; a binding of a secret of that name admitted the
identity and was in effect; and both are one secret unless one was created under that name between
the two lookups.
-/

set_option autoImplicit false

namespace Goca.Vault

open Go (Time)
open Goca.K8s (Identity)
open Goca.Pqcrypt (Bytes)
open Sql (Table)
open Interleave (Act After Event Pool Prog Sem Trace own after_snoc)
open Interleave.Act

/-! ## The trace of a fetch -/

/-- The lookup of a name. -/
abbrev Looked (P : Trace sig → Prop) (name : String) (sec : Secret) : Trace sig → Prop :=
  After P (.inr (.db (.selectSecretByName (normalizeName name)))) (.ok (some sec))

/-- The bindings of a name were read, one of which is `b`. -/
def BindingRead (name : String) (sec₁ sec₂ : Secret) (b : SecretBinding) (q : Trace sig) : Prop :=
  ∃ bs, b ∈ bs ∧ After (Looked (Looked (fun _ => True) name sec₁) sec₁.name sec₂)
    (.inr (.db (.listBindings sec₂.id))) (.ok bs) q

/-- The binding was in effect, by the clock where it expires. -/
def InEffect (P : Trace sig → Prop) (b : SecretBinding) (q : Trace sig) : Prop :=
  match b.expiresAt with
  | none => P q
  | some expires => ∃ a, a < expires ∧ After P (.inl (.host .now)) a q

/-- A binding of the name has admitted the identity. -/
structure Admission (id : Identity) (name : String) (sec₁ sec₂ : Secret) (b : SecretBinding)
    (q : Trace sig) : Prop where
  admits : b.admits id.namespace_ id.serviceAccount id.authMethod = true
  inEffect : InEffect (BindingRead name sec₁ sec₂ b) b q

/-- The certificate of an authority and those of its issuers, as their rows were read: at most so
many, up to the first parent whose row was not read. -/
inductive ChainOf (read : Nat → Option Store.CA → Prop) : Nat → Store.CA → List Pki.X509 → Prop
  | exhausted {row : Store.CA} : ChainOf read 0 row []
  | root {fuel : Nat} {row : Store.CA} {cert : Pki.X509}
    (own : Pki.parseCertPEM row.certPEM = .ok cert) (parentID : row.parentID = none) :
    ChainOf read (fuel + 1) row [cert]
  | cut {fuel p : Nat} {row : Store.CA} {cert : Pki.X509}
    (own : Pki.parseCertPEM row.certPEM = .ok cert) (parentID : row.parentID = some p)
    (unread : read p none) : ChainOf read (fuel + 1) row [cert]
  | issued {fuel p : Nat} {row parent : Store.CA} {cert : Pki.X509} {rest : List Pki.X509}
    (own : Pki.parseCertPEM row.certPEM = .ok cert) (parentID : row.parentID = some p)
    (parentRead : read p (some parent)) (issuers : ChainOf read fuel parent rest) :
    ChainOf read (fuel + 1) row (cert :: rest)

/-- The certificates of an authority and its issuers, from the row of its id. -/
def IssuersOf (read : Nat → Option Store.CA → Prop) (caID : Nat) (chain : List Pki.X509) : Prop :=
  ∃ row, read caID (some row) ∧ ChainOf read 16 row chain

/-- A lookup of an authority in package ca, with the row that it has found. -/
def CARead (q : Trace Store.sig) (p : Nat) (row? : Option Store.CA) : Prop :=
  ∃ x, (⟨.ca (.selectCA p), x⟩ : (s : Store.sig.Stmt) × Store.sig.Ans s) ∈ q ∧
    (Store.row x).toOption = row?

/-- Content was read of a secret. -/
inductive ContentRead (s : Service) (P : Trace sig → Prop) (sec : Secret) (q : Trace sig) :
    List File → Marker → Prop
  | payload {v : SecretVersion} {pt : Bytes} (type : sec.type ≠ .certificate)
    (read : After P (.inr (.db (.selectLatestVersion sec.id))) (.ok (some v)) q)
    (opens : s.openVersion sec v = .ok pt) :
    ContentRead s P sec q (versionFiles v pt).1 (versionFiles v pt).2
  | certificate {certID : Nat} {cert : Store.Certificate} {issuers chain : List Pki.X509}
    {key : Pki.PrivateKey} (type : sec.type = .certificate) (certID_eq : sec.certID = some certID)
    (read : After P (.inl (.ca (.selectCertificate certID))) (.ok (some cert)) q)
    (key_eq : Ca.certKey cert = .ok key)
    (full : IssuersOf (CARead (Prog.leftTrace q)) cert.caID issuers)
    (ca : IssuersOf (CARead (Prog.leftTrace q)) cert.caID chain) :
    ContentRead s P sec q (certificateFiles cert (cert.certPEM.toList ++ issuers) key chain).1
      (certificateFiles cert (cert.certPEM.toList ++ issuers) key chain).2

/-- **What a fetch has done** that releases content. -/
def Fetched (s : Service) (id : Identity) (name : String) (files : List File) (marker : Marker)
    (q : Trace sig) : Prop :=
  ∃ sec₁ sec₂ sec₃ b, sec₃.disabled = false ∧
    ContentRead s (Looked (Admission id name sec₁ sec₂ b) sec₁.name sec₃) sec₃ q files marker

theorem BindingRead.extends {name : String} {sec₁ sec₂ : Secret} {b : SecretBinding}
    {q q' : Trace sig} (h : BindingRead name sec₁ sec₂ b q) (hq : q <+: q') :
    BindingRead name sec₁ sec₂ b q' := by
  obtain ⟨bs, hb, hread⟩ := h
  exact ⟨bs, hb, hread.extends hq⟩

theorem ChainOf.mono {read read' : Nat → Option Store.CA → Prop} (h : ∀ p r, read p r → read' p r)
    {fuel : Nat} {row : Store.CA} {chain : List Pki.X509} (hc : ChainOf read fuel row chain) :
    ChainOf read' fuel row chain := by
  induction hc with
  | exhausted => exact .exhausted
  | root own parentID => exact .root own parentID
  | cut own parentID unread => exact .cut own parentID (h _ _ unread)
  | issued own parentID parentRead _ ih => exact .issued own parentID (h _ _ parentRead) ih

theorem IssuersOf.mono {read read' : Nat → Option Store.CA → Prop}
    (h : ∀ p r, read p r → read' p r) {caID : Nat} {chain : List Pki.X509}
    (hi : IssuersOf read caID chain) : IssuersOf read' caID chain := by
  obtain ⟨row, hrow, hchain⟩ := hi
  exact ⟨row, h _ _ hrow, hchain.mono h⟩

theorem CARead.extends {p : Nat} {row? : Option Store.CA} {q q' : Trace Store.sig}
    (h : CARead q p row?) (hq : q <+: q') : CARead q' p row? := by
  obtain ⟨x, hx, hrow⟩ := h
  exact ⟨x, hq.subset hx, hrow⟩

theorem leftTrace_mono {q q' : Trace sig} (h : q <+: q') :
    Prog.leftTrace q <+: Prog.leftTrace q' := by
  obtain ⟨r, rfl⟩ := h
  rw [Prog.leftTrace_append]
  exact List.prefix_append _ _

theorem IssuersOf.extends {caID : Nat} {chain : List Pki.X509} {q q' : Trace sig}
    (h : IssuersOf (CARead (Prog.leftTrace q)) caID chain) (hq : q <+: q') :
    IssuersOf (CARead (Prog.leftTrace q')) caID chain :=
  h.mono fun _ _ hread => hread.extends (leftTrace_mono hq)

theorem ContentRead.extends {s : Service} {P : Trace sig → Prop} {sec : Secret} {q q' : Trace sig}
    {files : List File} {marker : Marker} (h : ContentRead s P sec q files marker) (hq : q <+: q') :
    ContentRead s P sec q' files marker := by
  cases h with
  | payload type read opens => exact .payload type (read.extends hq) opens
  | certificate type certID_eq read key_eq full ca =>
    exact .certificate type certID_eq (read.extends hq) key_eq
      (full.extends hq) (ca.extends hq)

theorem Fetched.extends {s : Service} {id : Identity} {name : String} {files : List File}
    {marker : Marker} {q q' : Trace sig} (h : Fetched s id name files marker q) (hq : q <+: q') :
    Fetched s id name files marker q' := by
  obtain ⟨sec₁, sec₂, sec₃, b, hd, hread⟩ := h
  exact ⟨sec₁, sec₂, sec₃, b, hd, hread.extends hq⟩

section Fetch

variable {ε α : Type} {s : Service} {id : Identity} {name : String} {P : Trace sig → Prop}
  {q : Trace sig}

theorem get_traced (hP : P q) (name : String) :
    (get name).Traced (fun _ _ => True) (fun q sec => Looked P name sec q) q := by
  refine answer_traced trivial fun x sec hx => ?_
  obtain rfl := row_eq_ok hx
  exact after_snoc hP _ _

/-! ### The gate -/

/-- **The loop over the bindings** admits whom a binding in effect admits. -/
theorem authorized_traced (hP : ∀ q q', q <+: q' → P q → P q') (bs : List SecretBinding)
    (h : P q) :
    (Web.authorized id bs : Handler ε Bool).run.Traced (fun _ _ => True)
      (fun q r => ∃ admitted, r = .ok admitted ∧ (admitted = true → ∃ b ∈ bs,
        b.admits id.namespace_ id.serviceAccount id.authMethod = true ∧ InEffect P b q)) q := by
  induction bs generalizing q with
  | nil => exact Prog.traced_pure.mpr ⟨false, rfl, by rintro ⟨⟩⟩
  | cons b bs ih =>
    have husable : (b.usable : Handler ε Bool).run.Traced (fun _ _ => True)
        (fun q r => ∃ usable, r = .ok usable ∧ P q ∧ (usable = true → InEffect P b q)) q := by
      unfold SecretBinding.usable InEffect
      cases b.expiresAt with
      | none => exact Prog.traced_pure.mpr ⟨true, rfl, h, fun _ => h⟩
      | some expires =>
        refine Prog.traced_ask.mpr ⟨trivial, fun a => Prog.traced_pure.mpr ?_⟩
        exact ⟨_, rfl, hP q _ (List.prefix_append q _) h,
          fun ha => ⟨a, of_decide_eq_true ha, after_snoc h _ _⟩⟩
    have hmatches : (matchesBinding b id.namespace_ id.serviceAccount id.authMethod :
        Handler ε Bool).run.Traced (fun _ _ => True)
        (fun q r => ∃ matched, r = .ok matched ∧ P q ∧ (matched = true →
          b.admits id.namespace_ id.serviceAccount id.authMethod = true ∧ InEffect P b q)) q := by
      refine traced_run_bind husable ?_ ?_
      · rintro q' usable - ⟨_, ⟨⟩, hPq, hin⟩
        refine Prog.traced_pure.mpr ⟨_, rfl, hPq, fun hand => ?_⟩
        obtain ⟨hu, hadmits⟩ := Bool.and_eq_true _ _ ▸ hand
        exact ⟨hadmits, hin hu⟩
      · rintro q' e - ⟨_, ⟨⟩, -⟩
    refine traced_run_bind hmatches ?_ ?_
    · rintro q' matched - ⟨_, ⟨⟩, hPq, hin⟩
      cases matched with
      | true => exact Prog.traced_pure.mpr ⟨true, rfl, fun _ => ⟨b, List.mem_cons_self .., hin rfl⟩⟩
      | false =>
        refine (ih hPq).mono (fun _ _ h => h) ?_
        rintro q'' r ⟨admitted, rfl, h⟩
        refine ⟨admitted, rfl, fun hadmitted => ?_⟩
        obtain ⟨b', hb', h⟩ := h hadmitted
        exact ⟨b', List.mem_cons_of_mem _ hb', h⟩
    · rintro q' e - ⟨_, ⟨⟩, -⟩

/-- **Who gets past the gate** has been admitted by a binding of the name. -/
theorem gate_traced {ferr gerr : Go.Error → ε} {denied : ε} {k : Secret → Handler ε α}
    {post : Trace sig → Except ε α → Prop} (hferr : ∀ q e, post q (.error (ferr e)))
    (hgerr : ∀ q e, post q (.error (gerr e))) (hdenied : ∀ q, post q (.error denied))
    (hk : ∀ q sec₁ sec₂ b, Admission id name sec₁ sec₂ b q →
      (k sec₁).run.Traced (fun _ _ => True) post q) : (do
      let sec ← (get name).mapError ferr
      let bs ← (bindings sec.name).mapError gerr
      let admitted ← Web.authorized id bs
      Act.failIf (admitted = false) denied
      k sec : Handler ε α).run.Traced (fun _ _ => True) post q := by
  refine traced_run_bind (get_traced (P := fun _ => True) trivial name).run_mapError ?_ ?_
  · rintro q₁ sec₁ - ⟨hlooked, -⟩
    have hlooked := hlooked sec₁ rfl
    have hbindings : (bindings sec₁.name).Traced (fun _ _ => True) (fun q bs => ∃ sec₂,
        After (Looked (Looked (fun _ => True) name sec₁) sec₁.name sec₂)
          (.inr (.db (.listBindings sec₂.id))) (.ok bs) q) q₁ := by
      refine (get_traced hlooked sec₁.name).bind fun q₂ sec₂ _ hlooked₂ => ?_
      refine Prog.traced_ask.mpr ⟨trivial, fun x => Prog.traced_pure.mpr ?_⟩
      rintro bs ⟨⟩
      exact ⟨sec₂, after_snoc hlooked₂ _ _⟩
    refine traced_run_bind hbindings.run_mapError ?_ ?_
    · rintro q₂ bs - ⟨hread, -⟩
      obtain ⟨sec₂, hread⟩ := hread bs rfl
      refine traced_run_bind (authorized_traced (P := fun q => ∀ b ∈ bs,
        BindingRead name sec₁ sec₂ b q) ?_ bs fun b hb => ⟨bs, hb, hread⟩) ?_ ?_
      · exact fun q q' hq h b hb => (h b hb).extends hq
      · rintro q₃ admitted - ⟨_, ⟨⟩, hadmitted⟩
        cases admitted with
        | false => exact Prog.traced_pure.mpr (hdenied q₃)
        | true =>
          obtain ⟨b, hb, hadmits, hin⟩ := hadmitted rfl
          refine hk q₃ sec₁ sec₂ b ⟨hadmits, ?_⟩
          unfold InEffect at hin ⊢
          split at hin
          · exact hin b hb
          · obtain ⟨a, ha, q₀, hq₀, hpre⟩ := hin
            exact ⟨a, ha, q₀, hq₀ b hb, hpre⟩
      · rintro q₃ e - ⟨_, ⟨⟩, -⟩
    · rintro q₂ e - ⟨-, herr⟩
      obtain ⟨e', rfl⟩ := herr e rfl
      exact hgerr q₂ e'
  · rintro q₁ e - ⟨-, herr⟩
    obtain ⟨e', rfl⟩ := herr e rfl
    exact hferr q₁ e'

/-! ### The content -/

theorem toOption_row {α : Type} (row? : Option α) :
    (Store.row (.ok row?)).toOption = row? := by
  cases row? with
  | none => rfl
  | some row => rfl

/-- The row of an authority is read, or it is not. -/
theorem getCA_traced (p : Nat) {q : Trace Store.sig} :
    (Store.getCA p).run.Traced (fun _ _ => True) (fun q r => CARead q p r.toOption) q :=
  Prog.traced_ask.mpr ⟨trivial, fun x => Prog.traced_pure.mpr
    ⟨x, List.mem_append_right _ (List.mem_singleton_self _), rfl⟩⟩

/-- **The loop over the issuers** answers with their certificates. -/
theorem caChainFrom_traced (fuel : Nat) (row : Store.CA) {q : Trace Store.sig} :
    (Ca.caChainFrom fuel row).Traced (fun _ _ => True)
      (fun q chain => ChainOf (CARead q) fuel row chain) q := by
  induction fuel generalizing row q with
  | zero => exact traced_pure .exhausted
  | succ fuel ih =>
    unfold Ca.caChainFrom
    refine traced_bind_ofExcept fun cert hcert => ?_
    cases hparent : row.parentID with
    | none => exact traced_pure (.root hcert hparent)
    | some p =>
      refine Traced.bind (traced_attempt (getCA_traced p)) fun q₁ r _ hread => ?_
      cases r with
      | error e => exact traced_pure (.cut hcert hparent hread)
      | ok parent =>
        refine (ih parent).extends.bind fun q₂ rest _ hrest => traced_pure ?_
        exact .issued hcert hparent (hread.extends hrest.1) hrest.2

theorem getCA_read (p : Nat) {q : Trace Store.sig} :
    (Store.getCA p).Traced (fun _ _ => True) (fun q row => CARead q p (some row)) q := by
  refine (getCA_traced p).mono (fun _ _ h => h) ?_
  rintro q' _ hread row rfl
  exact hread

/-- The certificate of a secret is followed by those of its issuers. -/
theorem certChainPEM_traced (cert : Store.Certificate) {q : Trace Store.sig} :
    (Ca.certChainPEM cert).Traced (fun _ _ => True) (fun q full => ∃ issuers,
      IssuersOf (CARead q) cert.caID issuers ∧ full = cert.certPEM.toList ++ issuers) q := by
  refine (getCA_read cert.caID).bind fun q₁ issuer _ hread => ?_
  refine (caChainFrom_traced 16 issuer).extends.bind fun q₂ chain _ hchain => traced_pure ?_
  exact ⟨chain, ⟨issuer, hread.extends hchain.1, hchain.2⟩, rfl⟩

/-- What is promised of a call of package ca, of the call that makes it. -/
theorem traced_embed {x : Store.Handler ε α} {ok : Trace Store.sig → α → Prop}
    (hx : ∀ q, x.Traced (fun _ _ => True) ok q) :
    (x.embed : Handler ε α).Traced (fun _ _ => True) (fun q a => ok (Prog.leftTrace q) a) q :=
  Prog.Traced.embed (fun _ _ _ => trivial) (fun _ _ h => h) (hx _)

theorem materializeCertificate_traced {sec : Secret} (htype : sec.type = .certificate) (hP : P q) :
    (s.materializeCertificate sec).Traced (fun _ _ => True)
      (fun q r => ContentRead s P sec q r.1 r.2) q := by
  have hlooked (certID : Nat) : ((Store.getCertificate certID).embed : Handler Go.Error _).Traced
      (fun _ _ => True)
      (fun q cert => After P (.inl (.ca (.selectCertificate certID))) (.ok (some cert)) q) q := by
    refine Prog.traced_ask.mpr ⟨trivial, fun x => Prog.traced_pure.mpr fun cert hcert => ?_⟩
    obtain rfl := row_eq_ok hcert
    exact after_snoc hP _ _
  unfold Service.materializeCertificate
  refine traced_ite (fun _ => traced_throw) fun _ => ?_
  cases hcertID : sec.certID with
  | none => exact traced_throw
  | some certID =>
    refine (hlooked certID).mapError.bind fun q₁ cert _ hread => ?_
    refine (traced_embed fun _ => certChainPEM_traced cert).extends.mapError.bind ?_
    rintro q₂ full - ⟨hq₂, issuers, hfull, rfl⟩
    refine traced_bind_ofExcept fun key hkey => ?_
    refine (traced_embed fun _ => getCA_read cert.caID).extends.mapError.bind ?_
    rintro q₃ caRec - ⟨hq₃, hca⟩
    refine (traced_embed fun _ => caChainFrom_traced 16 caRec).extends.mapError.bind ?_
    rintro q₄ chain - ⟨hq₄, hchain⟩
    refine traced_pure (.certificate htype hcertID (hread.extends (hq₂.trans (hq₃.trans hq₄)))
      (Go.mapError_eq_ok.mp hkey) (hfull.extends (hq₃.trans hq₄)) ⟨caRec, ?_, hchain⟩)
    exact hca.extends (leftTrace_mono hq₄)

/-- **What `Materialize` answers was read** of the secret that it has looked up. -/
theorem materialize_traced (hP : P q) (name : String) :
    (s.materialize name).Traced (fun _ _ => True) (fun q r => r.1.disabled = false ∧
      ContentRead s (Looked P name r.1) r.1 q r.2.1 r.2.2) q := by
  unfold Service.materialize
  refine (get_traced hP name).bind fun q₁ sec _ hlooked => ?_
  refine Traced.bind (m := fun q _ => q = q₁ ∧ sec.disabled = false)
    (traced_failIf fun hd => ⟨rfl, Bool.not_eq_true _ ▸ hd⟩) ?_
  rintro q₂ - - ⟨rfl, hd⟩
  have hpayload (htype : sec.type ≠ .certificate) : (do
      let v ← getLatestSecretVersion sec.id
      let pt ← Act.ofExcept (s.openVersion sec v)
      pure (sec, versionFiles v pt) : Handler Go.Error (Secret × List File × Marker)).Traced
        (fun _ _ => True) (fun q r => r.1.disabled = false ∧
          ContentRead s (Looked P name r.1) r.1 q r.2.1 r.2.2) q₂ := by
    refine Traced.bind (m := fun q v => After (Looked P name sec)
      (.inr (.db (.selectLatestVersion sec.id))) (.ok (some v)) q) ?_ ?_
    · refine answer_traced trivial fun x v hv => ?_
      obtain rfl := row_eq_ok hv
      exact after_snoc hlooked _ _
    · intro q₃ v _ hread
      refine Traced.bind (m := fun q pt => q = q₃ ∧ s.openVersion sec v = .ok pt)
        (traced_ofExcept fun pt hpt => ⟨rfl, hpt⟩) ?_
      rintro q₄ pt - ⟨rfl, hopen⟩
      exact traced_pure ⟨hd, .payload htype hread hopen⟩
  cases htype : sec.type with
  | certificate =>
    refine (materializeCertificate_traced htype hlooked).bind fun q₃ r _ hread => ?_
    exact traced_pure ⟨hd, hread⟩
  | kv =>
    refine hpayload ?_
    rw [htype]
    decide
  | file =>
    refine hpayload ?_
    rw [htype]
    decide

/-! ### The endpoints -/

theorem auditWithIP_traced (actor action target detail ip : String) :
    (auditWithIP actor action target detail ip : Handler ε Unit).run.Traced (fun _ _ => True)
      (fun q' r => q <+: q' ∧ r = .ok ()) q := by
  have hinsert : ((Ca.insertAudit actor action target detail ip).embed.attempt :
      Handler ε _).run.Traced (fun _ _ => True) (fun q' r => q <+: q' ∧ ∃ x, r = .ok x) q :=
    Prog.Traced.bind (Prog.traced_any _ q) fun q' r _ hq => Prog.traced_pure.mpr ⟨hq, r, rfl⟩
  refine traced_run_bind hinsert ?_ ?_
  · rintro q' x - ⟨hq, -⟩
    exact Prog.traced_pure.mpr ⟨hq, rfl⟩
  · rintro q' e - ⟨-, _, ⟨⟩⟩

/-- **A result that has content** was fetched. -/
theorem fetchResult_traced (ip name : String) :
    (Web.fetchResult s id ip name : Handler ε _).Traced (fun _ _ => True) (fun q r =>
      r.secretName = name ∧ ∀ marker, r.version = some marker →
        Fetched s id name r.files marker q) q := by
  have hone : (Web.fetchOneVaultSecret s id ip name).run.Traced (fun _ _ => True)
      (fun q r => ∀ res, r = .ok res ∨ r = .error res → res.secretName = name ∧
        ∀ marker, res.version = some marker → Fetched s id name res.files marker q) q := by
    refine gate_traced ?_ ?_ ?_ ?_
    · rintro q e res (⟨⟨⟩⟩ | ⟨⟨⟩⟩)
      exact ⟨rfl, by rintro _ ⟨⟩⟩
    · rintro q e res (⟨⟨⟩⟩ | ⟨⟨⟩⟩)
      exact ⟨rfl, by rintro _ ⟨⟩⟩
    · rintro q res (⟨⟨⟩⟩ | ⟨⟨⟩⟩)
      exact ⟨rfl, by rintro _ ⟨⟩⟩
    · intro q₁ sec₁ sec₂ b hadmission
      refine traced_run_bind (materialize_traced hadmission sec₁.name).run_mapError ?_ ?_
      · rintro q₂ ⟨sec₃, files, marker⟩ - ⟨hread, -⟩
        obtain ⟨hd, hread⟩ := hread _ rfl
        refine traced_run_bind (auditWithIP_traced ..) ?_ ?_
        · rintro q₃ - - ⟨hq₃, -⟩
          refine Prog.traced_pure.mpr ?_
          rintro res (⟨⟨⟩⟩ | ⟨⟨⟩⟩)
          refine ⟨rfl, ?_⟩
          rintro _ ⟨⟩
          exact ⟨sec₁, sec₂, sec₃, b, hd, hread.extends hq₃⟩
        · rintro q₃ e - ⟨-, ⟨⟩⟩
      · rintro q₂ e - ⟨-, herr⟩
        obtain ⟨e', rfl⟩ := herr e rfl
        rintro res (⟨⟨⟩⟩ | ⟨⟨⟩⟩)
        exact ⟨rfl, by rintro _ ⟨⟩⟩
  refine Prog.Traced.bind hone fun q' r _ hr => Prog.traced_pure.mpr ?_
  cases r with
  | ok res =>
    rintro _ ⟨⟩
    exact hr res (.inl rfl)
  | error res =>
    rintro _ ⟨⟩
    exact hr res (.inr rfl)

theorem fetchEach_traced (ip : String) (names : List String) :
    (Web.fetchEach s id ip names : Handler ε _).Traced (fun _ _ => True) (fun q rs =>
      ∀ r ∈ rs, r.secretName ∈ names ∧ ∀ marker, r.version = some marker →
        Fetched s id r.secretName r.files marker q) q := by
  induction names generalizing q with
  | nil => exact traced_pure fun r hr => absurd hr List.not_mem_nil
  | cons name names ih =>
    refine (fetchResult_traced ip name).bind fun q₁ r _ hr => ?_
    refine Traced.bind (m := fun q rs => q₁ <+: q ∧ ∀ r ∈ rs, r.secretName ∈ names ∧
      ∀ marker, r.version = some marker → Fetched s id r.secretName r.files marker q) ?_ ?_
    · exact Prog.Traced.mono (fun _ _ => fun h => h)
        (fun q₂ _ h a ha => ⟨h.1, h.2 a ha⟩) (Prog.Traced.extends ih)
    · rintro q₂ rs - ⟨hq₂, hrs⟩
      refine traced_pure fun r' hr' => ?_
      rcases List.mem_cons.mp hr' with rfl | hr'
      · obtain ⟨hname, hfetched⟩ := hr
        rw [hname]
        exact ⟨List.mem_cons_self .., fun marker hmarker => (hfetched marker hmarker).extends hq₂⟩
      · obtain ⟨hname, hfetched⟩ := hrs r' hr'
        exact ⟨List.mem_cons_of_mem _ hname, hfetched⟩

theorem mem_of_selectFile {key property : String} {files : List File} {file : File}
    (h : Web.selectFile key property files = .ok file) : file ∈ files := by
  unfold Web.selectFile at h
  split at h
  · split at h
    · next hfind =>
      cases h
      exact List.mem_of_find?_eq_some hfind
    · cases h
  · split at h
    · cases h
      exact List.mem_singleton_self _
    · cases h

theorem eso_traced (ip key property : String) (all : Bool) :
    (Web.apiESOFetchSecret s id ip key property all).Traced (fun _ _ => True) (fun q r =>
      match r with
      | .all _ marker files => Fetched s id key files marker q
      | .one _ p marker data _ => ∃ files, ⟨p, data⟩ ∈ files ∧ Fetched s id key files marker q)
      q := by
  unfold Web.apiESOFetchSecret
  refine Traced.bind (m := fun _ _ => True) (traced_any _ fun _ _ _ => trivial) fun q₀ _ _ _ => ?_
  refine gate_traced ?_ ?_ ?_ ?_
  · rintro q e a ⟨⟩
  · rintro q e a ⟨⟩
  · rintro q a ⟨⟩
  · intro q₁ sec₁ sec₂ b hadmission
    refine (materialize_traced hadmission sec₁.name).mapError.bind ?_
    rintro q₂ ⟨sec₃, files, marker⟩ - ⟨hd, hread⟩
    have hfetched {q : Trace sig} (hq : q₂ <+: q) : Fetched s id key files marker q :=
      ⟨sec₁, sec₂, sec₃, b, hd, hread.extends hq⟩
    cases all with
    | true => exact traced_any_bind fun q₃ _ hq₃ => traced_pure (hfetched hq₃)
    | false =>
      refine Traced.bind (m := fun q file => q = q₂ ∧
        Web.selectFile key property files = .ok file) (traced_ofExcept fun _ h => ⟨rfl, h⟩) ?_
      rintro q₃ file - ⟨rfl, hfile⟩
      refine traced_any_bind fun q₄ _ hq₄ => traced_pure ?_
      exact ⟨files, mem_of_selectFile hfile, hfetched hq₄⟩

/-- What a fetch promises of the content that it answers with. -/
def ReleasePromise (s : Service) : Call → Trace sig → Reply → Prop
  | .vaultFetch id _ body, q, .fetched resp => ∃ names, body = .ok names ∧ ∀ r ∈ resp.results,
      r.secretName ∈ names ∧ ∀ marker, r.version = some marker →
        Fetched s id r.secretName r.files marker q
  | .esoFetch id _ key _ _, q, .released (.all _ marker files) => Fetched s id key files marker q
  | .esoFetch id _ key _ _, q, .released (.one _ p marker data _) =>
    ∃ files, ⟨p, data⟩ ∈ files ∧ Fetched s id key files marker q
  | _, _, _ => True

/-- **Every fetch** releases what it has fetched. -/
theorem answer_releases (s : Service) (c : Call) :
    (s.answer c).Traced (fun _ _ => True) (ReleasePromise s c) [] := by
  have hany : (s.answer c).Traced (fun _ _ => True) (fun _ _ => True) [] :=
    (Prog.traced_any _ _).mono (fun _ _ h => h) fun _ _ _ => trivial
  cases c with
  | vaultFetch id ip body =>
    have hfetch : (Web.apiVaultFetch s id ip body).Traced (fun _ _ => True) (fun q resp =>
        ∃ names, body = .ok names ∧ ∀ r ∈ resp.results, r.secretName ∈ names ∧
          ∀ marker, r.version = some marker → Fetched s id r.secretName r.files marker q) [] := by
      unfold Web.apiVaultFetch
      refine Traced.bind (m := fun _ names => body = .ok names)
        (traced_ofExcept fun names h => Go.mapError_eq_ok.mp h) fun q₁ names _ hnames => ?_
      refine traced_any_bind fun q₂ _ _ => ?_
      refine (fetchEach_traced ip names).bind fun q₃ rs _ hrs => traced_pure ?_
      exact ⟨names, hnames, hrs⟩
    exact replying_traced hfetch (fun _ _ h => h) fun _ _ => trivial
  | esoFetch id ip key property all =>
    refine replying_traced (eso_traced ip key property all) (fun q r h => ?_) fun _ _ => trivial
    cases r with
    | all n marker files => exact h
    | one n p marker data value => exact h
  | request r => exact hany
  | getLatest name => exact hany
  | getVersion name n => exact hany
  | disconnect tx => exact hany

end Fetch

/-! ## Where secrets come from -/

/-- **What a statement does to the secrets**: it changes them under their ids and names, inserts
one, or deletes one. -/
theorem exec_secrets_cases (t : Tables) (certs : Table Store.Certificate) (d : DbStmt) :
    (∃ f : Secret → Secret, (∀ r, (f r).id = r.id ∧ (f r).name = r.name) ∧
      (t.exec certs d).2.secrets.rows = t.secrets.rows.map f) ∨
    (∃ new row, d = .insertSecret new ∧ row.name = new.name ∧
      (t.exec certs d).2.secrets.rows = t.secrets.rows ++ [row]) ∨
    ∃ id, d = .deleteSecret id ∧
      (t.exec certs d).2.secrets.rows = t.secrets.rows.filter fun r => !(r.id == id) := by
  have hsame {t' : Tables} (h : t'.secrets = t.secrets) :
      ∃ f : Secret → Secret, (∀ r, (f r).id = r.id ∧ (f r).name = r.name) ∧
        t'.secrets.rows = t.secrets.rows.map f :=
    ⟨id, fun _ => ⟨rfl, rfl⟩, by rw [h, List.map_id]⟩
  have hupdate {p : Secret → Bool} {f : Secret → Secret}
      (hf : ∀ r, (f r).id = r.id ∧ (f r).name = r.name) :
      ∃ g : Secret → Secret, (∀ r, (g r).id = r.id ∧ (g r).name = r.name) ∧
        (t.secrets.update p f fun r => (hf r).1).rows = t.secrets.rows.map g := by
    refine ⟨fun r => if p r then f r else r, fun r => ?_, rfl⟩
    dsimp only
    split
    · exact hf r
    · exact ⟨rfl, rfl⟩
  cases d with
  | insertSecret new =>
    simp only [Tables.exec]
    split
    · exact .inl (hsame rfl)
    · exact .inr (.inl ⟨new, { new with id := t.secrets.seq + 1 }, rfl, rfl, rfl⟩)
  | updateSecretMeta id description labelsJSON rotationDays =>
    exact .inl (hupdate (f := fun s => { s with description, labelsJSON, rotationDays })
      fun _ => ⟨rfl, rfl⟩)
  | setSecretDisabled id disabled =>
    exact .inl (hupdate (f := fun s => { s with disabled }) fun _ => ⟨rfl, rfl⟩)
  | deleteSecret id => exact .inr (.inr ⟨id, rfl, rfl⟩)
  | reserveVersion tx sid =>
    simp only [Tables.exec]
    rcases within_cases t tx with ⟨-, heq⟩ | ⟨x, -, heq⟩
    · rw [heq]
      exact .inl (hsame rfl)
    · rw [heq]
      split
      · exact .inl (hsame rfl)
      · exact .inl (hsame rfl)
  | insertVersion tx v =>
    simp only [Tables.exec]
    rcases within_cases t tx with ⟨-, heq⟩ | ⟨x, -, heq⟩
    · rw [heq]
      exact .inl (hsame rfl)
    · rw [heq]
      split
      · exact .inl (hsame rfl)
      · exact .inl (hsame rfl)
  | commit tx =>
    simp only [Tables.exec]
    rcases within_cases t tx with ⟨-, heq⟩ | ⟨x, -, heq⟩
    · rw [heq]
      exact .inl (hsame rfl)
    · rw [heq]
      unfold Tables.commitTx
      dsimp only
      split
      · exact .inl (hsame rfl)
      · next id next _ =>
        exact .inl (hupdate (f := fun s => { s with currentVersion := next }) fun _ => ⟨rfl, rfl⟩)
  | rollback tx =>
    simp only [Tables.exec]
    rcases within_cases t tx with ⟨-, heq⟩ | ⟨x, -, heq⟩
    · rw [heq]
      exact .inl (hsame rfl)
    · rw [heq]
      exact .inl (hsame rfl)
  | insertBinding b =>
    simp only [Tables.exec]
    split
    · exact .inl (hsame rfl)
    · exact .inl (hsame rfl)
  | _ => exact .inl (hsame rfl)

/-- A secret was there under its name, or it is inserted. -/
theorem exec_secrets {t : Tables} {certs : Table Store.Certificate} (d : DbStmt) {sec : Secret}
    (h : sec ∈ (t.exec certs d).2.secrets.rows) :
    (∃ r ∈ t.secrets.rows, r.id = sec.id ∧ r.name = sec.name) ∨
      ∃ new, d = .insertSecret new ∧ new.name = sec.name := by
  rcases exec_secrets_cases t certs d with
    ⟨f, hf, hrows⟩ | ⟨new, row, rfl, hname, hrows⟩ | ⟨id, rfl, hrows⟩
  · rw [hrows] at h
    obtain ⟨r, hr, rfl⟩ := List.mem_map.mp h
    exact .inl ⟨r, hr, (hf r).1.symm, (hf r).2.symm⟩
  · rw [hrows] at h
    rcases List.mem_append.mp h with hold | hrow
    · exact .inl ⟨sec, hold, rfl, rfl⟩
    · cases List.mem_singleton.mp hrow
      exact .inr ⟨new, rfl, hname.symm⟩
  · rw [hrows] at h
    exact .inl ⟨sec, (List.mem_filter.mp h).1, rfl, rfl⟩

section Run

variable [Go.Runtime] {s : Service} {base : Store.World} {calls : List Call}
  {moves : Pool.Schedule Store.Env} {i j k n t : Nat} {name : String}

/-- Between two moves somebody asks to insert a secret under a name, for a call that creates one. -/
def Recreated (s : Service) (base : Store.World) (calls : List Call)
    (moves : Pool.Schedule Store.Env) (i k : Nat) (name : String) : Prop :=
  ∃ m u e new x input, i ≤ m ∧ m < k ∧
    Pool.AskedAt exec (s.answering (.fresh base) calls) moves m u e
      (.inr (.db (.insertSecret new))) x ∧
    calls[u]? = some (.request (.create input)) ∧ new.name = name ∧ normalizeName input.name = name

/-- **A secret was there before**, under its name, or was created since. -/
theorem secret_origin (hik : i ≤ k) (hk : k ≤ moves.length) {sec : Secret}
    (h : sec ∈ (tablesUpto s base calls moves k).secrets.rows) :
    (∃ r ∈ (tablesUpto s base calls moves i).secrets.rows, r.id = sec.id ∧ r.name = sec.name) ∨
      Recreated s base calls moves i k sec.name := by
  induction hik generalizing sec with
  | refl => exact .inl ⟨sec, h, rfl, rfl⟩
  | @step k hik ih =>
    have hold {r : Secret} (hr : r ∈ (tablesUpto s base calls moves k).secrets.rows)
        (hid : r.id = sec.id) (hname : r.name = sec.name) :
        (∃ r ∈ (tablesUpto s base calls moves i).secrets.rows,
            r.id = sec.id ∧ r.name = sec.name) ∨
          Recreated s base calls moves i (k + 1) sec.name := by
      rcases ih (Nat.le_of_succ_le hk) hr with ⟨r₀, hr₀, hid₀, hname₀⟩ | hnew
      · exact .inl ⟨r₀, hr₀, hid₀.trans hid, hname₀.trans hname⟩
      · obtain ⟨m, u, e, new, x, input, him, hmk, hasked, hc, hn, hi⟩ := hnew
        exact .inr ⟨m, u, e, new, x, input, him, Nat.lt_succ_of_lt hmk, hasked, hc,
          hn.trans hname, hi.trans hname⟩
    rcases Pool.upto_asked exec (s.answering (.fresh base) calls) hk with hs | ⟨st, x, hasked, -⟩
    · unfold tablesUpto Service.answeringUpto at h
      rw [hs] at h
      exact hold h rfl rfl
    · rcases tables_step hasked.exec with heq | ⟨d, rfl, -, heq⟩
      · have heq : tablesUpto s base calls moves (k + 1) = tablesUpto s base calls moves k := heq
        rw [heq] at h
        exact hold h rfl rfl
      · have heq : tablesUpto s base calls moves (k + 1) = _ := heq
        rw [heq] at h
        rcases exec_secrets d h with ⟨r, hr, hid, hname⟩ | ⟨new, rfl, hname⟩
        · exact hold hr hid hname
        · obtain ⟨c, hc, hasks, -⟩ := asked_allowed hasked
          obtain ⟨input, rfl, hinput, -⟩ := Call.writes_insertSecret (hasks.resolve_left fun h => h)
          exact .inr ⟨k, _, _, new, x, input, hik, Nat.lt_succ_self k, hasked, hc, hname,
            hinput.symm.trans hname⟩

/-- Call `t` has looked an authority up, and was answered the row that the table had at that move,
or no row. -/
inductive CAReadBy (s : Service) (base : Store.World) (calls : List Call)
    (moves : Pool.Schedule Store.Env) (t p : Nat) : Option Store.CA → Prop
  | answered {m : Nat} {e : Store.Env} (asked : Pool.AskedAt exec (s.answering (.fresh base) calls)
      moves m t e (.inl (.ca (.selectCA p)))
      (.ok ((s.answeringUpto base calls moves m).world.base.ca.cas.get? p))) :
    CAReadBy s base calls moves t p
      ((s.answeringUpto base calls moves m).world.base.ca.cas.get? p)
  | failed {m : Nat} {e : Store.Env} {err : Go.Error}
    (asked : Pool.AskedAt exec (s.answering (.fresh base) calls) moves m t e
      (.inl (.ca (.selectCA p))) (.error err)) : CAReadBy s base calls moves t p none

/-- What was read of a secret at move `l`, with the issuers of its certificate as call `t` has read
their rows. -/
inductive ReadAt (s : Service) (base : Store.World) (calls : List Call)
    (moves : Pool.Schedule Store.Env) (t l : Nat) (sec : Secret) : List File → Marker → Prop
  /-- The value that the `Put` of the newest version was given. -/
  | payload {v u : SecretVersion} {m t' : Nat} {name : String} {value : Bytes}
    {contentType actor : String} (type : sec.type ≠ .certificate)
    (newest : Newest (tablesUpto s base calls moves l) sec.id v)
    (put : calls[t']? = some (.request (.put name value contentType actor)))
    (stores : StoresAt s base calls moves m t' u) (secretID : u.secretID = sec.id)
    (version : u.version = v.version) :
    ReadAt s base calls moves t l sec [⟨fileName contentType, .bytes value⟩] (.sha256 ⟨value⟩)
  /-- The certificate that the secret is linked to and those of its issuers, its own key, and those
  of its issuers again. -/
  | certificate {certID : Nat} {cert : Store.Certificate} {issuers chain : List Pki.X509}
    {key : Pki.PrivateKey} (type : sec.type = .certificate) (certID_eq : sec.certID = some certID)
    (row : (s.answeringUpto base calls moves l).world.base.ca.certificates.get? certID = some cert)
    (key_eq : Ca.certKey cert = .ok key)
    (full : IssuersOf (CAReadBy s base calls moves t) cert.caID issuers)
    (ca : IssuersOf (CAReadBy s base calls moves t) cert.caID chain) :
    ReadAt s base calls moves t l sec
      (certificateFiles cert (cert.certPEM.toList ++ issuers) key chain).1
      (certificateFiles cert (cert.certPEM.toList ++ issuers) key chain).2

/-- **How content was released**: call `t` found `bound` under the name at move `i` and read its
bindings at move `j`, found `source` under the name at move `k` and read its content at move `l`. -/
structure Release (s : Service) (base : Store.World) (calls : List Call)
    (moves : Pool.Schedule Store.Env) (t : Nat) (id : Identity) (name : String)
    (files : List File) (marker : Marker) (bound source : Secret) (b : SecretBinding)
    (i j k l : Nat) : Prop where
  order : i < j ∧ j < k ∧ k < l ∧ l < moves.length
  mine : ∀ m ∈ [i, j, k, l], ∃ e st x,
    Pool.AskedAt exec (s.answering (.fresh base) calls) moves m t e st x
  found : bound ∈ (tablesUpto s base calls moves i).secrets.rows ∧ bound.name = normalizeName name
  binding : b ∈ (tablesUpto s base calls moves j).bindings.rows ∧ b.secretID = bound.id
  admits : b.admits id.namespace_ id.serviceAccount id.authMethod = true
  /-- A binding that expires had not expired by the clock of the call. -/
  inEffect : ∀ expires, b.expiresAt = some expires → ∃ m e a, j < m ∧ m < k ∧
    Pool.AskedAt exec (s.answering (.fresh base) calls) moves m t e (.inl (.host .now)) a ∧
    a < expires
  enabled : source ∈ (tablesUpto s base calls moves k).secrets.rows ∧
    source.name = normalizeName name ∧ source.disabled = false
  content : ReadAt s base calls moves t l source files marker
  /-- The binding is one of the secret whose content it is, or one was created in between. -/
  same : source.id = bound.id ∨ Recreated s base calls moves i k (normalizeName name)

/-- A lookup of a name on the trace of a call. -/
theorem looked_origin (hn : n ≤ moves.length) {P : Trace sig → Prop} {sec : Secret}
    (h : Looked P name sec (own t (s.answeringUpto base calls moves n).history)) :
    ∃ m e x, m < n ∧ Pool.AskedAt exec (s.answering (.fresh base) calls) moves m t e
        (.inr (.db (.selectSecretByName (normalizeName name)))) x ∧
      sec ∈ (tablesUpto s base calls moves m).secrets.rows ∧ sec.name = normalizeName name ∧
      P (own t (s.answeringUpto base calls moves m).history) := by
  obtain ⟨m, e, hm, hasked, hP⟩ := Pool.after_origin hn rfl h
  obtain ⟨-, -, hexec⟩ := exec_db_ok hasked.exec
  have hfind : (tablesUpto s base calls moves m).named name = some sec :=
    Except.ok.inj (Prod.mk.inj hexec).1
  obtain ⟨hsec, hname⟩ := (answering_named s base calls moves m).named_iff.mp hfind
  exact ⟨m, e, _, hm, hasked, hsec, hname, hP⟩

/-- A lookup of an authority on the trace of a call. -/
theorem caReadBy_of_own (hn : n ≤ moves.length) {p : Nat} {row? : Option Store.CA}
    (h : CARead (Prog.leftTrace (own t (s.answeringUpto base calls moves n).history)) p row?) :
    CAReadBy s base calls moves t p row? := by
  obtain ⟨x, hx, rfl⟩ := h
  obtain ⟨m, e, -, hasked⟩ := Pool.history_origin hn rfl
    (Interleave.mem_own.mp (Prog.mem_leftTrace.mp hx))
  obtain ⟨w, hexec, -⟩ := Sem.sum_inl.mp hasked.exec
  obtain ⟨-, hanswer, -⟩ := Store.exec_ca hexec
  cases x with
  | error err => exact .failed hasked
  | ok row? =>
    obtain rfl := Except.ok.inj (Store.Fault.apply_ok hanswer.symm).1
    rw [toOption_row]
    exact .answered hasked

/-- The move at which content was read. -/
theorem read_origin (hn : n ≤ moves.length) {P : Trace sig → Prop} {sec : Secret}
    {files : List File} {marker : Marker}
    (h : ContentRead s P sec (own t (s.answeringUpto base calls moves n).history) files marker) :
    ∃ l e st x, l < n ∧ Pool.AskedAt exec (s.answering (.fresh base) calls) moves l t e st x ∧
      ReadAt s base calls moves t l sec files marker ∧
      P (own t (s.answeringUpto base calls moves l).history) := by
  cases h with
  | @payload v pt type read opens =>
    obtain ⟨l, e, hl, hasked, hP⟩ := Pool.after_origin hn rfl read
    obtain ⟨-, -, hexec⟩ := exec_db_ok hasked.exec
    have hlatest : (tablesUpto s base calls moves l).latest sec.id = some v :=
      Except.ok.inj (Prod.mk.inj hexec).1
    have hholds : Holds s base calls moves l 0 sec (versionFiles v pt).1 (versionFiles v pt).2 :=
      (holds_iff (hl.le.trans hn) type).mp ⟨v, pt, hlatest, opens, rfl⟩
    refine ⟨l, e, _, _, hl, hasked, ?_, hP⟩
    generalize (versionFiles v pt).1 = files at hholds
    generalize (versionFiles v pt).2 = marker at hholds
    cases hholds with
    | payload type newest put stores secretID version =>
      exact .payload type newest put stores secretID version
    | certificate h => exact absurd h type
  | certificate type certID_eq read key_eq full ca =>
    obtain ⟨l, e, hl, hasked, hP⟩ := Pool.after_origin hn rfl read
    obtain ⟨w, hexec, -⟩ := Sem.sum_inl.mp hasked.exec
    obtain ⟨-, hx, -⟩ := Store.exec_ca hexec
    have hrow := Except.ok.inj (Store.Fault.apply_ok hx.symm).1
    exact ⟨l, e, _, _, hl, hasked, .certificate type certID_eq hrow key_eq
      (full.mono fun _ _ => caReadBy_of_own hn) (ca.mono fun _ _ => caReadBy_of_own hn), hP⟩

/-- The moves at which a binding admitted an identity. -/
theorem admission_origin (hk : k ≤ moves.length) {id : Identity} {sec₁ sec₂ : Secret}
    {b : SecretBinding}
    (h : Admission id name sec₁ sec₂ b (own t (s.answeringUpto base calls moves k).history)) :
    ∃ i j, i < j ∧ j < k ∧
      (∀ m ∈ [i, j], ∃ e st x,
        Pool.AskedAt exec (s.answering (.fresh base) calls) moves m t e st x) ∧
      sec₁.name = normalizeName name ∧ sec₂ ∈ (tablesUpto s base calls moves i).secrets.rows ∧
      sec₂.name = normalizeName name ∧ b ∈ (tablesUpto s base calls moves j).bindings.rows ∧
      b.secretID = sec₂.id ∧
      ∀ expires, b.expiresAt = some expires → ∃ m e a, j < m ∧ m < k ∧
        Pool.AskedAt exec (s.answering (.fresh base) calls) moves m t e (.inl (.host .now)) a ∧
        a < expires := by
  -- the bindings were read before the clock was, where that was read at all
  obtain ⟨n, hn, hread, hclock⟩ : ∃ n ≤ k,
      BindingRead name sec₁ sec₂ b (own t (s.answeringUpto base calls moves n).history) ∧
      ∀ expires, b.expiresAt = some expires → ∃ e a, n < k ∧
        Pool.AskedAt exec (s.answering (.fresh base) calls) moves n t e (.inl (.host .now)) a ∧
        a < expires := by
    have hin := h.inEffect
    unfold InEffect at hin
    split at hin
    · next hnone =>
      refine ⟨k, Nat.le_refl k, hin, fun expires hsome => ?_⟩
      rw [hnone] at hsome
      cases hsome
    · next expires hsome =>
      obtain ⟨a, ha, hafter⟩ := hin
      obtain ⟨m, e, hm, hasked, hread⟩ := Pool.after_origin hk rfl hafter
      refine ⟨m, hm.le, hread, fun expires' hsome' => ⟨e, a, hm, hasked, ?_⟩⟩
      rw [hsome] at hsome'
      cases hsome'
      exact ha
  obtain ⟨bs, hb, hread⟩ := hread
  obtain ⟨j, e, hj, hasked, hlooked⟩ := Pool.after_origin (hn.trans hk) rfl hread
  obtain ⟨-, -, hexec⟩ := exec_db_ok hasked.exec
  have hbs : (tablesUpto s base calls moves j).bindingsOf sec₂ = bs :=
    Except.ok.inj (Prod.mk.inj hexec).1
  rw [← hbs] at hb
  obtain ⟨hb, hid⟩ := List.mem_filter.mp hb
  have hjlen : j ≤ moves.length := (hj.le.trans hn).trans hk
  obtain ⟨i, e', x, hi, hasked', hsec₂, hname₂, hlooked₁⟩ := looked_origin hjlen hlooked
  obtain ⟨i₀, -, -, hi₀, -, hsec₁, hname₁, -⟩ := looked_origin (hi.le.trans hjlen) hlooked₁
  have htrim := ((answering_named s base calls moves i₀).find hsec₁).1
  refine ⟨i, j, hi, hj.trans_le hn, ?_, hname₁, hsec₂, ?_, hb, beq_iff_eq.mp hid, ?_⟩
  · intro m hm
    rcases List.mem_cons.mp hm with rfl | hm
    · exact ⟨e', _, x, hasked'⟩
    · cases List.mem_singleton.mp hm
      exact ⟨e, _, _, hasked⟩
  · rw [hname₂, htrim, hname₁]
  · intro expires hsome
    obtain ⟨e'', a, hnk, hasked'', ha⟩ := hclock expires hsome
    exact ⟨n, e'', a, hj, hnk, hasked'', ha⟩

/-- **Whatever a call has fetched was released so.** -/
theorem release_of_fetched (hn : n ≤ moves.length) {id : Identity} {files : List File}
    {marker : Marker}
    (h : Fetched s id name files marker (own t (s.answeringUpto base calls moves n).history)) :
    ∃ bound source b i j k l, Release s base calls moves t id name files marker bound source b
      i j k l := by
  obtain ⟨sec₁, sec₂, sec₃, b, hd, hcontent⟩ := h
  obtain ⟨l, e, st, x, hl, hasked, hread, hlooked⟩ := read_origin hn hcontent
  have hllen : l ≤ moves.length := hl.le.trans hn
  obtain ⟨k, e', x', hk, hasked', hsec₃, hname₃, hadmission⟩ := looked_origin hllen hlooked
  have hklen : k ≤ moves.length := hk.le.trans hllen
  obtain ⟨i, j, hij, hjk, hmine, hname₁, hsec₂, hname₂, hb, hid, hclock⟩ :=
    admission_origin hklen hadmission
  have hnamed := answering_named s base calls moves i
  have hname₃ : sec₃.name = normalizeName name := by
    rw [hname₃, hname₁, ← hname₂]
    exact (hnamed.find hsec₂).1
  refine ⟨sec₂, sec₃, b, i, j, k, l, ⟨hij, hjk, hk, hl.trans_le hn⟩, ?_, ⟨hsec₂, hname₂⟩,
    ⟨hb, hid⟩, hadmission.admits, hclock, ⟨hsec₃, hname₃, hd⟩, hread, ?_⟩
  · intro m hm
    rcases List.mem_append.mp (show m ∈ [i, j] ++ [k, l] from hm) with hm | hm
    · exact hmine m hm
    · rcases List.mem_cons.mp hm with rfl | hm
      · exact ⟨e', _, x', hasked'⟩
      · cases List.mem_singleton.mp hm
        exact ⟨e, st, x, hasked⟩
  · -- two secrets of one name were not there at once
    rcases secret_origin (hij.trans hjk).le hklen hsec₃ with ⟨r, hr, hrid, hrname⟩ | hnew
    · left
      have hsame : r = sec₂ := List.inj_on_of_nodup_map hnamed.distinct hr hsec₂
        (hrname.trans (hname₃.trans hname₂.symm))
      rw [← hrid, hsame]
    · rw [hname₃] at hnew
      exact .inr hnew

end Run

/-! ## The law -/

/-- **What the fetches of a run release** was released as `Release` says. -/
structure ReleasesWarranted [Go.Runtime] (s : Service) (base : Store.World) (calls : List Call)
    (moves : Pool.Schedule Store.Env) : Prop where
  csi : ∀ t id ip body resp r marker, Answers s base calls moves t (.vaultFetch id ip body)
      (.fetched resp) → r ∈ resp.results → r.version = some marker →
    (∃ names, body = .ok names ∧ r.secretName ∈ names) ∧
    ∃ bound source b i j k l, Release s base calls moves t id r.secretName r.files marker
      bound source b i j k l
  eso : ∀ t id ip key property all n files marker, Answers s base calls moves t
      (.esoFetch id ip key property all) (.released (.all n marker files)) →
    ∃ bound source b i j k l, Release s base calls moves t id key files marker bound source b
      i j k l
  part : ∀ t id ip key property all n p marker data value, Answers s base calls moves t
      (.esoFetch id ip key property all) (.released (.one n p marker data value)) →
    ∃ files, ⟨p, data⟩ ∈ files ∧ ∃ bound source b i j k l,
      Release s base calls moves t id key files marker bound source b i j k l

end Goca.Vault
