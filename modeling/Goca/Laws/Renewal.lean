import Mathlib.Data.List.Perm.Basic
import Goca.Laws.Issued
import Goca.Laws.Nesting
import Goca.Laws.Slugs

/-!
# What a renewal keeps

`Renew` makes a new request of a stored certificate: it flattens the subject to one value for each
attribute, reads the names back from their texts, counts the days of the old validity and refers to
the authority by its number. Then it issues. Whatever is lost on the way is lost in the new
certificate.

- `pkix_eq_iff`: which subjects come back as themselves.
- `sameNames_iff`: which sets of names do.
- `wholeDays_iff`: which validities do.
- `renewal_identity`: what follows for a renewal, when the authority signs again, and when a renewal
  can succeed.
-/

set_option autoImplicit false

namespace Goca

open Go (Time URL)
open Goca.Store
open Goca.Pki (Name PrivateKey Profile SANSet SignParams SignedAt X509 IsAddress Plain Whole)
open Interleave (Act Sem)
open Interleave.Act

attribute [local irreducible] Interleave.Prog.Returns

variable [Go.Runtime] {ε α : Type} {w w' : World}

/-! ## Subjects -/

/-- An attribute that one text can hold: no value, or one that comes back through `f` and the
trimming. -/
def Single (f : String → String) (values : List String) : Prop :=
  values = [] ∨ ∃ v, values = [v] ∧ v ≠ "" ∧ Go.trimSpace (f v) = v

/-- A subject that `Subject` can hold. -/
structure SubjectKept (n : Name) : Prop where
  commonName : Go.trimSpace n.commonName = n.commonName
  serialNumber : n.serialNumber = ""
  organization : Single id n.organization
  organizationalUnit : Single id n.organizationalUnit
  country : Single Go.toUpper n.country
  province : Single id n.province
  locality : Single id n.locality
  streetAddress : Single id n.streetAddress
  postalCode : Single id n.postalCode

omit [Go.Runtime] in
theorem attributeValues_eq_iff {f : String → String} (hf : f "" = "") {values : List String} :
    Pki.attributeValues (f (values.headD "")) = values ↔ Single f values := by
  unfold Single
  cases values with
  | nil =>
    rw [List.headD_nil, hf]
    exact ⟨fun _ => .inl rfl, fun _ => rfl⟩
  | cons v rest =>
    rw [List.headD_cons]
    unfold Pki.attributeValues
    dsimp only
    by_cases hempty : Go.trimSpace (f v) = ""
    · rw [if_pos hempty]
      constructor
      · intro h
        cases h
      · rintro (h | ⟨u, h, hne, htrim⟩)
        · cases h
        · obtain ⟨rfl, _⟩ := List.cons.inj h
          exact absurd (htrim.symm.trans hempty) hne
    · rw [if_neg hempty]
      constructor
      · intro h
        obtain ⟨htrim, rfl⟩ := List.cons.inj h
        exact .inr ⟨v, rfl, htrim ▸ hempty, htrim⟩
      · rintro (h | ⟨u, h, hne, htrim⟩)
        · cases h
        · obtain ⟨rfl, rfl⟩ := List.cons.inj h
          rw [htrim]

/-- **A subject comes back as itself** when every attribute has one value at most, and no value is
changed on the way. -/
theorem pkix_eq_iff {n : Name} : (Pki.subjectFromPKIX n).pkix = n ↔ SubjectKept n := by
  have hid {values : List String} :
      Pki.attributeValues (values.headD "") = values ↔ Single id values :=
    attributeValues_eq_iff (f := id) rfl
  have hupper {values : List String} :
      Pki.attributeValues (Go.toUpper (values.headD "")) = values ↔ Single Go.toUpper values :=
    attributeValues_eq_iff rfl
  obtain ⟨cn, serial, o, ou, c, st, l, street, code⟩ := n
  simp only [Pki.Subject.pkix, Pki.subjectFromPKIX, Name.mk.injEq, hid, hupper]
  constructor
  · rintro ⟨hcn, hserial, ho, hou, hc, hst, hl, hstreet, hcode⟩
    exact ⟨hcn, hserial.symm, ho, hou, hc, hst, hl, hstreet, hcode⟩
  · rintro ⟨hcn, hserial, ho, hou, hc, hst, hl, hstreet, hcode⟩
    exact ⟨hcn, hserial.symm, ho, hou, hc, hst, hl, hstreet, hcode⟩

/-- A subject that a renewal with a new key accepts. -/
structure Acceptable (n : Name) : Prop where
  commonName : Go.trimSpace n.commonName ≠ ""
  country : Go.trimSpace (n.country.headD "") ≠ "" →
    (Go.trimSpace (n.country.headD "")).utf8ByteSize = 2

/-- What is checked of the subject of a renewal with a new key. -/
theorem validate_iff {n : Name} :
    (Pki.subjectFromPKIX n).validate = .ok () ↔ Acceptable n := by
  have hemail : ¬ (Go.trimSpace "" ≠ "" ∧ Go.Runtime.mailAddress (Go.trimSpace "") = false) :=
    fun h => h.1 rfl
  unfold Pki.Subject.validate Pki.subjectFromPKIX
  dsimp only
  by_cases hname : Go.trimSpace n.commonName = ""
  · rw [if_pos hname]
    constructor
    · intro h
      cases h
    · intro h
      exact absurd hname h.commonName
  rw [if_neg hname]
  by_cases hcountry : Go.trimSpace (n.country.headD "") ≠ "" ∧
      (Go.trimSpace (n.country.headD "")).utf8ByteSize ≠ 2
  · constructor
    · intro h
      simp only [if_pos hcountry] at h
      cases h
    · intro h
      exact absurd (h.country hcountry.1) hcountry.2
  · constructor
    · intro _
      exact ⟨hname, fun hne => by_contra fun hsize => hcountry ⟨hne, hsize⟩⟩
    · intro _
      simp only [if_neg hcountry, if_neg hemail]
      rfl


/-! ## Names -/

/-- Two sets with the same names of each type, each as often. -/
structure SameNames (a b : SANSet) : Prop where
  dns : a.dns.Perm b.dns
  ips : a.ips.Perm b.ips
  emails : a.emails.Perm b.emails
  uris : a.uris.Perm b.uris

/-- A set of names that is read back from its texts: no text is cut or trimmed, and the URIs are
what their texts parse to. -/
structure NamesKept (s : SANSet) : Prop where
  dns : ∀ d ∈ s.dns, Plain d
  emails : ∀ e ∈ s.emails, Plain e
  whole : ∀ u ∈ s.uris, Whole u.text
  uris : (s.uris.map fun u => Go.Runtime.urlParse (Pki.leading u.text)).Perm (s.uris.map .ok)

omit [Go.Runtime] in
theorem SameNames.size_eq {a b : SANSet} (h : SameNames a b) : a.size = b.size := by
  unfold SANSet.size
  rw [h.dns.length_eq, h.ips.length_eq, h.emails.length_eq, h.uris.length_eq]

omit [Go.Runtime] in
theorem forall₂_iff_map {β γ : Type} {f : α → Except β γ} {us : List α} {vs : List γ} :
    List.Forall₂ (fun u v => f u = .ok v) us vs ↔ us.map f = vs.map .ok := by
  induction us generalizing vs with
  | nil =>
    cases vs with
    | nil => exact ⟨fun _ => rfl, fun _ => .nil⟩
    | cons v vs => exact ⟨fun h => (nomatch h), fun h => (nomatch h)⟩
  | cons u us ih =>
    cases vs with
    | nil => exact ⟨fun h => (nomatch h), fun h => (nomatch h)⟩
    | cons v vs => rw [List.forall₂_cons, ih, List.map_cons, List.map_cons, List.cons.injEq]

omit [Go.Runtime] in
/-- Values that are a rearrangement of results are results. -/
theorem exists_map_ok {β γ : Type} {xs : List (Except β γ)} {ys : List γ}
    (h : xs.Perm (ys.map .ok)) : ∃ vs : List γ, xs = vs.map .ok ∧ vs.Perm ys := by
  have hok : ∀ x ∈ xs, ∃ v, x = Except.ok v := by
    intro x hx
    obtain ⟨v, _, hv⟩ := List.mem_map.mp (h.subset hx)
    exact ⟨v, hv.symm⟩
  have hvs : ∃ vs : List γ, xs = vs.map .ok := by
    clear h
    induction xs with
    | nil => exact ⟨[], rfl⟩
    | cons x xs ih =>
      obtain ⟨v, rfl⟩ := hok x List.mem_cons_self
      obtain ⟨vs, rfl⟩ := ih fun x hx => hok x (List.mem_cons_of_mem _ hx)
      exact ⟨v :: vs, rfl⟩
  obtain ⟨vs, rfl⟩ := hvs
  exact ⟨vs, rfl, (List.map_perm_map_iff fun _ _ h => Except.ok.inj h).mp h⟩

omit [Go.Runtime] in
/-- Texts that are a rearrangement of what they are taken for are plain. -/
theorem plain_of_perm {ts : List String} (h : (ts.map Pki.leading).Perm ts) :
    ∀ t ∈ ts, Plain t := by
  intro t ht
  obtain ⟨u, _, rfl⟩ := List.mem_map.mp (h.symm.subset ht)
  exact Pki.plain_leading u

/-- What comes back of whole texts. -/
theorem parseSANs_of_whole {s t : SANSet} (hips : ∀ ip ∈ s.ips, IsAddress ip)
    (hdns : ∀ d ∈ s.dns, Whole d) (hemails : ∀ e ∈ s.emails, Whole e)
    (huris : ∀ u ∈ s.uris, Whole u.text) : Pki.parseSANs s.strings = .ok t ↔
      ∃ vs, (s.uris.map fun u => Go.Runtime.urlParse (Pki.leading u.text)) = vs.map .ok ∧
        t = ⟨s.dns.map Pki.leading, s.ips, s.emails.map Pki.leading, vs⟩ := by
  rw [Pki.parseSANs_eq, Pki.foldlM_dns hdns, Pki.foldlM_ips hips, Pki.foldlM_emails hemails,
    Pki.foldlM_uris huris]
  refine exists_congr fun vs => and_congr forall₂_iff_map ?_
  simp only [List.nil_append]

/-- **The names that come back** are the same exactly when every text is whole and nothing is
trimmed. -/
theorem sameNames_iff {s t : SANSet} (hips : ∀ ip ∈ s.ips, IsAddress ip)
    (h : Pki.parseSANs s.strings = .ok t) : SameNames t s ↔ NamesKept s := by
  constructor
  · intro hsame
    obtain ⟨hdns, hemails, huris⟩ := (Pki.whole_of_size h).2 hsame.size_eq
    obtain ⟨vs, hvs, rfl⟩ := (parseSANs_of_whole hips hdns hemails huris).mp h
    refine ⟨plain_of_perm hsame.dns, plain_of_perm hsame.emails, huris, ?_⟩
    rw [hvs]
    exact hsame.uris.map _
  · intro hkept
    obtain ⟨vs, hvs, rfl⟩ := (parseSANs_of_whole hips
      (fun d hd => Pki.whole_plain (hkept.dns d hd))
      (fun e he => Pki.whole_plain (hkept.emails e he)) hkept.whole).mp h
    refine ⟨?_, .refl _, ?_, ?_⟩
    · rw [Pki.map_leading_eq.mpr hkept.dns]
    · rw [Pki.map_leading_eq.mpr hkept.emails]
    · have huris := hkept.uris
      rw [hvs] at huris
      exact (List.map_perm_map_iff fun _ _ h => Except.ok.inj h).mp huris

/-- Names that are kept are read. -/
theorem parseSANs_of_namesKept {s : SANSet} (hips : ∀ ip ∈ s.ips, IsAddress ip)
    (h : NamesKept s) : ∃ t, Pki.parseSANs s.strings = .ok t := by
  obtain ⟨vs, hvs, _⟩ := exists_map_ok h.uris
  exact ⟨_, (parseSANs_of_whole hips (fun d hd => Pki.whole_plain (h.dns d hd))
    (fun e he => Pki.whole_plain (h.emails e he)) h.whole).mpr ⟨vs, hvs, rfl⟩⟩

/-! ## Validities -/

/-- The length of a validity, in whole days. -/
def lifeDays (c : X509) : Int := (c.notAfter - c.notBefore) / 86400

/-- The days that are signed where a validity has none to keep. -/
def standardDays (s : Ca.Service) : Int :=
  if s.cfg.defaultCertDays ≤ 0 then 397 else s.cfg.defaultCertDays

/-- A validity whose length is kept: at least a day and less than the 106752 days at which a
`Duration` is full, or as long as the standard one. -/
def SpanKept (s : Ca.Service) (c : X509) : Prop :=
  (86400 ≤ c.notAfter - c.notBefore ∧ c.notAfter - c.notBefore < 106752 * 86400) ∨
    (c.notAfter - c.notBefore < 86400 ∧
      (Pki.daySeconds (standardDays s) + 300) / 86400 = lifeDays c)

/-- The days that a renewal is signed for. -/
def renewedDays (s : Ca.Service) (old : Certificate) : Int :=
  if 0 < old.notAfter.wholeDays old.notBefore then old.notAfter.wholeDays old.notBefore
  else standardDays s

omit [Go.Runtime] in
/-- The whole days of a validity of a day at least, as many as a `Duration` can hold. -/
theorem wholeDays_of_le {t u : Int} (h : 86400 ≤ t - u) :
    Go.Time.wholeDays t u = min (t - u) 9223372036 / 86400 := by
  have hsub : Go.Time.sub t u = min (t - u) 9223372036 := by
    unfold Go.Time.sub
    rw [max_eq_left (by omega)]
  unfold Go.Time.wholeDays
  rw [hsub]
  exact Int.tdiv_eq_ediv_of_nonneg (le_min (by omega) (by decide))

omit [Go.Runtime] in
/-- A validity of less than a day has no whole days. -/
theorem wholeDays_of_lt {t u : Int} (h : t - u < 86400) : Go.Time.wholeDays t u ≤ 0 := by
  have hsub : Go.Time.sub t u < 86400 := by
    unfold Go.Time.sub
    exact min_lt_of_left_lt (max_lt h (by decide))
  unfold Go.Time.wholeDays
  generalize Go.Time.sub t u = span at hsub
  change span < 86400 at hsub
  by_cases hneg : 0 ≤ span
  · rw [Int.tdiv_eq_ediv_of_nonneg hneg]
    omega
  · have hdiv : (-span).tdiv 86400 = (-span) / 86400 := Int.tdiv_eq_ediv_of_nonneg (by omega)
    rw [Int.neg_tdiv] at hdiv
    omega

omit [Go.Runtime] in
/-- **The length of a validity is kept** by the days that a renewal is signed for. -/
theorem renewedDays_iff {s : Ca.Service} {old : Certificate} {c : X509}
    (hbefore : old.notBefore = c.notBefore) (hafter : old.notAfter = c.notAfter) :
    (Pki.daySeconds (renewedDays s old) + 300) / 86400 = lifeDays c ↔ SpanKept s c := by
  have hpos {span : Int} (hlong : 86400 ≤ span) : 0 < min span 9223372036 / 86400 := by omega
  have hspan {span : Int} (hlong : 86400 ≤ span) :
      (Pki.daySeconds (min span 9223372036 / 86400) + 300) / 86400 = span / 86400 ↔
        span < 106752 * 86400 := by
    rw [Pki.daySeconds_eq (by omega) (by omega)]
    omega
  unfold renewedDays SpanKept lifeDays
  rw [hbefore, hafter]
  by_cases hlong : 86400 ≤ c.notAfter - c.notBefore
  · rw [wholeDays_of_le hlong, if_pos (hpos hlong), hspan hlong]
    constructor
    · intro h
      exact .inl ⟨hlong, h⟩
    · rintro (⟨_, h⟩ | ⟨h, _⟩)
      · exact h
      · exact absurd hlong (not_le.mpr h)
  · have hshort := wholeDays_of_lt (not_le.mp hlong)
    rw [if_neg (not_lt.mpr hshort)]
    constructor
    · intro h
      exact .inr ⟨not_le.mp hlong, h⟩
    · rintro (⟨h, _⟩ | ⟨_, h⟩)
      · exact absurd h hlong
      · exact h


/-! ## The request of a renewal -/

/-- The part of a renewal's request that does not depend on the key. -/
structure Requested (i : Ca.RenewInput) (old : Certificate) (caRef : String) (days : Int)
    (subject : Pki.Subject) (i' : Ca.IssueInput) : Prop where
  caRef : i'.caRef = caRef
  subject : i'.subject = subject
  profile : i'.profile = old.profile
  days : i'.days = days
  allowSubordinateCA : i'.allowSubordinateCA = i.allowSubordinateCA
  storeKey : i'.storeKey = some (i.storeKey.getD old.hasKey)

/-- A request for a new key. -/
theorem renewalRequest_fresh (s : Ca.Service) {i : Ca.RenewInput} (old : Certificate)
    (caRef : String) (days : Int) (subject : Pki.Subject) (hkey : i.sameKey = false) :
    ∃ i', Ca.renewalRequest s i old caRef days subject = .ok i' ∧
      Requested i old caRef days subject i' ∧ i'.mode = .generate ∧ i'.sans = old.sans ∧
      i'.keyType = Ca.firstNonEmpty [i.keyType, old.keyType, s.cfg.defaultKeyType] := by
  unfold Ca.renewalRequest
  dsimp only
  rw [if_neg (by rw [hkey]; exact Bool.false_ne_true)]
  exact ⟨_, rfl, ⟨rfl, rfl, rfl, rfl, rfl, rfl⟩, rfl, rfl, rfl⟩

/-- A request for the key of the old certificate. -/
theorem renewalRequest_same (s : Ca.Service) {i : Ca.RenewInput} {old : Certificate}
    (caRef : String) (days : Int) (subject : Pki.Subject) {key : PrivateKey} {sans : SANSet}
    (hkey : i.sameKey = true) (hstored : old.keyEnc = some key) (hsigns : key.Signs)
    (hsans : Pki.parseSANs old.sans = .ok sans) :
    ∃ i', Ca.renewalRequest s i old caRef days subject = .ok i' ∧
      Requested i old caRef days subject i' ∧ i'.mode = .csr ∧ i'.sans = [] ∧
      i'.csrPEM = .csr (Pki.requestFor key subject sans) ∧ i'.keyPEM = .key key := by
  unfold Ca.renewalRequest Ca.certKey
  dsimp only
  have hcsr : Pki.csrFromKey key subject sans = .ok (Pki.requestFor key subject sans) :=
    csrFromKey_iff.mpr ⟨hsigns, rfl⟩
  rw [if_pos hkey, hstored, hsans]
  simp only [Except.mapError, bind, Except.bind, hcsr]
  exact ⟨_, rfl, ⟨rfl, rfl, rfl, rfl, rfl, rfl⟩, rfl, rfl, rfl, rfl⟩

/-- A request for the key of the old certificate is made only where the key is stored and the names
are read. -/
theorem renewalRequest_same_ok {s : Ca.Service} {i : Ca.RenewInput} {old : Certificate}
    {caRef : String} {days : Int} {subject : Pki.Subject} {i' : Ca.IssueInput}
    (hkey : i.sameKey = true) (h : Ca.renewalRequest s i old caRef days subject = .ok i') :
    ∃ key sans, old.keyEnc = some key ∧ key.Signs ∧ Pki.parseSANs old.sans = .ok sans := by
  unfold Ca.renewalRequest Ca.certKey at h
  dsimp only at h
  rw [if_pos hkey] at h
  cases hstored : old.keyEnc with
  | none =>
    rw [hstored] at h
    cases h
  | some key =>
    rw [hstored] at h
    cases hsans : Pki.parseSANs old.sans with
    | error e =>
      rw [hsans] at h
      cases h
    | ok sans =>
      rw [hsans] at h
      cases hcsr : Pki.csrFromKey key subject sans with
      | error e =>
        simp only [Except.mapError, bind, Except.bind, hcsr] at h
        cases h
      | ok csr => exact ⟨key, sans, rfl, (csrFromKey_iff.mp hcsr).1, rfl⟩

/-- The key type that a request for a new key asks for. -/
def renewedKeyType (s : Ca.Service) (i : Ca.RenewInput) (old : Certificate) : String :=
  Ca.firstNonEmpty [Ca.firstNonEmpty [i.keyType, old.keyType, s.cfg.defaultKeyType],
    s.cfg.defaultKeyType]

/-- What a renewal signs: the flattened subject, the names that are read, without an override, and
the old key on request. -/
structure RenewalParams (s : Ca.Service) (i : Ca.RenewInput) (old : Certificate) (n : Name) (p : SignParams) :
    Prop where
  subject : p.subject = (Pki.subjectFromPKIX n).pkix
  override : p.sanOverride = none
  names : Pki.parseSANs old.sans = .ok p.csr.sans
  key : i.sameKey = true → ∃ key, old.keyEnc = some key ∧ p.csr.publicKey = key.publicKey
  valid : i.sameKey = false → (Pki.subjectFromPKIX n).validate = .ok ()
  typed : i.sameKey = false → ∃ kt, Pki.parseKeyType (renewedKeyType s i old) = .ok kt

omit [Go.Runtime] in
theorem effectiveMode_of_mode {i : Ca.IssueInput} {m : Ca.IssueMode} (h : i.mode = m)
    (hset : m ≠ .unset) : i.effectiveMode = m := by
  unfold Ca.IssueInput.effectiveMode
  rw [h]
  cases m with
  | unset => exact absurd rfl hset
  | _ => rfl

omit [Go.Runtime] in
/-- A request is taken over with the key it was made for. -/
theorem suppliedRequest_eq {i : Ca.IssueInput} {csr : Pki.CSR} {key : PrivateKey}
    (hcsr : i.csrPEM = .csr csr) (hkey : i.keyPEM = .key key) (hsigns : key.Signs)
    (hmatch : key.publicKey = csr.publicKey) :
    i.suppliedRequest = .ok ⟨csr, some key, Pki.keyTypeOf csr.publicKey⟩ := by
  unfold Ca.IssueInput.suppliedRequest
  rw [hcsr, hkey]
  simp only [Pki.parseCSR, Pki.parsePrivateKeyPEM, Except.mapError, bind, Except.bind]
  have hok : Pki.keyMatchesCSR key csr = .ok () := keyMatchesCSR_iff.mpr ⟨hsigns, hmatch⟩
  rw [hok]
  rfl

theorem subject_of_override {p : SignParams} {n : Name}
    (hcsr : p.csr.subject = (Pki.subjectFromPKIX n).pkix)
    (hoverride : p.subjectOverride = none ∨ p.subjectOverride = some (Pki.subjectFromPKIX n)) :
    p.subject = (Pki.subjectFromPKIX n).pkix := by
  unfold SignParams.subject
  rcases hoverride with h | h
  · rw [h]
    exact hcsr
  · rw [h]

/-- **What a renewal signs.** -/
theorem renewalParams {s : Ca.Service} {i : Ca.RenewInput} {old : Certificate} {caRef : String}
    {days : Int} {n : Name} {i' : Ca.IssueInput} {row : CA} {m : Ca.KeyMaterial} {p : SignParams}
    {c : X509}
    (h : Ca.renewalRequest s i old caRef days (Pki.subjectFromPKIX n) = .ok i')
    (hrun : IssueRun s i' w row m p c) :
    RenewalParams s i old n p ∧ Requested i old caRef days (Pki.subjectFromPKIX n) i' := by
  have hmaterial := hrun.material
  have hsans := hrun.sans
  have hsubject := hrun.subject
  have hcsr := hrun.csr
  unfold Ca.Service.keyMaterial at hmaterial
  unfold Ca.IssueInput.sanOverride at hsans
  unfold Ca.IssueInput.subjectOverride at hsubject
  by_cases hkey : i.sameKey = true
  · obtain ⟨key, sans, hstored, hsigns, hparsed⟩ := renewalRequest_same_ok hkey h
    obtain ⟨i'', hi'', hreq, hmode, hnone, hreqCSR, hreqKey⟩ := renewalRequest_same s caRef
      days (Pki.subjectFromPKIX n) hkey hstored hsigns hparsed
    obtain rfl : i'' = i' := Except.ok.inj (hi''.symm.trans h)
    have hmode := effectiveMode_of_mode hmode (by decide)
    rw [hmode] at hmaterial hsans hsubject
    obtain ⟨hm, _⟩ := returns_ofExcept.mp hmaterial
    rw [suppliedRequest_eq hreqCSR hreqKey hsigns rfl] at hm
    cases hm
    rw [if_neg fun hne => hne.2 hnone] at hsans
    refine ⟨⟨subject_of_override ?_ ?_, (Except.ok.inj hsans).symm, ?_, ?_, ?_, ?_⟩, hreq⟩
    · rw [hcsr]
      rfl
    · rw [hsubject, hreq.subject]
      split
      · exact .inr rfl
      · exact .inl rfl
    · rw [hcsr, hparsed]
      rfl
    · intro _
      exact ⟨key, hstored, by rw [hcsr]; rfl⟩
    · intro hfresh
      rw [hkey] at hfresh
      cases hfresh
    · intro hfresh
      rw [hkey] at hfresh
      cases hfresh
  · obtain ⟨i'', hi'', hreq, hmode, hnames, htype⟩ := renewalRequest_fresh s old caRef days
      (Pki.subjectFromPKIX n) (Bool.not_eq_true _ ▸ hkey)
    obtain rfl : i'' = i' := Except.ok.inj (hi''.symm.trans h)
    have hmode := effectiveMode_of_mode hmode (by decide)
    rw [hmode] at hmaterial hsans hsubject
    obtain ⟨⟨hvalid, kt, sans, key, hkt, hparsed, _, _, rfl⟩, _⟩ :=
      generatedRequest_returns hmaterial
    rw [hreq.subject] at hvalid
    rw [hnames] at hparsed
    rw [if_neg fun h => nomatch h.1] at hsans hsubject
    rw [htype] at hkt
    refine ⟨⟨subject_of_override ?_ (.inl hsubject), (Except.ok.inj hsans).symm, ?_, ?_, ?_, ?_⟩,
      hreq⟩
    · rw [hcsr, hreq.subject]
      rfl
    · rw [hcsr, hparsed, hreq.subject]
      rfl
    · exact fun h => absurd h hkey
    · exact fun _ => hvalid
    · exact fun _ => ⟨kt, hkt⟩

omit [Go.Runtime] in
theorem empty_iff {s : SANSet} : s.empty = true ↔ s = {} := by
  obtain ⟨dns, ips, emails, uris⟩ := s
  simp only [SANSet.empty, Bool.and_eq_true, List.isEmpty_iff, SANSet.mk.injEq, and_assoc]

omit [Go.Runtime] in
theorem eq_empty_of_size {s : SANSet} (h : s.size = 0) : s = {} := by
  obtain ⟨dns, ips, emails, uris⟩ := s
  simp only [SANSet.size, Nat.add_eq_zero_iff, List.length_eq_zero_iff] at h
  obtain ⟨⟨⟨rfl, rfl⟩, rfl⟩, rfl⟩ := h
  rfl

/-- A renewal under the same common name and profile is signed with the names that were read: a
common name that was no name the first time is none the second time. -/
theorem renewed_sans {p p₀ : SignParams} (hparsed : Pki.parseSANs p₀.sans.strings = .ok p.csr.sans)
    (hoverride : p.sanOverride = none) (hname : p.subject.commonName = p₀.subject.commonName)
    (hprofile : p.profile = p₀.profile) : p.sans = p.csr.sans := by
  by_cases hempty : p.csr.sans.empty = true
  · have hread := empty_iff.mp hempty
    have hsize := (Pki.whole_of_size hparsed).1
    rw [hread] at hsize
    have hold := eq_empty_of_size (Nat.le_zero.mp hsize)
    have hpromoted : (p.subject.commonName ≠ "" ∧ p.profile ∈ [Profile.server, .serverCli]) →
        ∀ promoted, Pki.parseSANs [p.subject.commonName] = .ok promoted → promoted = {} := by
      intro hcond promoted hok
      rw [hname, hprofile] at hcond
      rw [hname] at hok
      unfold SignParams.sans at hold
      dsimp only at hold
      by_cases hbase : (p₀.sanOverride.getD p₀.csr.sans).empty = true
      · rw [if_pos ⟨hbase, hcond⟩, hok] at hold
        exact hold
      · rw [if_neg fun h => hbase h.1] at hold
        exact absurd (empty_iff.mpr hold) hbase
    unfold SignParams.sans
    rw [hoverride, Option.getD_none]
    dsimp only
    split
    · next hcond =>
      split
      · next promoted hok => rw [hpromoted hcond.2 promoted hok, hread]
      · rfl
    · rfl
  · unfold SignParams.sans
    rw [hoverride, Option.getD_none]
    dsimp only
    rw [if_neg fun h => hempty h.1]

/-! ## Renew -/

omit [Go.Runtime] in
theorem subjectOf_eq_ok {old : Certificate} {c : X509} (h : old.certPEM = some c) :
    Ca.subjectOf old = .ok (Pki.subjectFromPKIX c.subject) := by
  unfold Ca.subjectOf
  rw [h]
  rfl

/-- How the authority of a renewal is chosen: the issuer by its number while it can sign, and none
where it cannot, or is not read. -/
theorem renewalIssuer_returns {q : Env → Bool} {i : Ca.RenewInput} {old : Certificate}
    {caRef : String} (hnamed : Go.trimSpace i.caRef = "")
    (h : (Ca.renewalIssuer i old).Returns (Sem.under exec q) w (.ok caRef) w') :
    w = w' ∧ ∃ r, (getCA old.caID).Returns (Sem.under exec q) w r w ∧
      ((∃ e, r = .error e ∧ caRef = "") ∨ ∃ issuer t, r = .ok issuer ∧
        (now : Handler Go.Error Time).Returns (Sem.under exec q) w (.ok t) w ∧
        ((∃ e, Ca.canIssue t issuer = .error e ∧ caRef = "") ∨
          (Ca.canIssue t issuer = .ok () ∧ caRef = toString issuer.id))) := by
  unfold Ca.renewalIssuer at h
  rw [if_neg (not_not.mpr hnamed)] at h
  obtain ⟨r, v, hr, h⟩ := returns_bind.mp h
  have hr := returns_attempt.mp hr
  obtain ⟨r', hr', hrow⟩ := returns_mapResult.mp hr
  obtain rfl : w = v := ca_reads (fun _ => rfl) hr'.of_under
  cases r with
  | error e =>
    obtain ⟨href, hw⟩ := returns_pure.mp h
    exact ⟨hw, _, hr, .inl ⟨e, rfl, href.symm⟩⟩
  | ok issuer =>
    obtain ⟨able, v, hable, h⟩ := returns_bind.mp h
    obtain ⟨t, u, ht, hchecked⟩ := returns_now_bind.mp (returns_attempt.mp hable)
    obtain ⟨_, rfl⟩ := Pki.now_returns.mp ht.of_under
    obtain ⟨hcan, rfl⟩ := returns_ofExcept_any.mp hchecked
    obtain ⟨href, hw⟩ := returns_pure.mp h
    refine ⟨hw, _, hr, .inr ⟨issuer, t, rfl, ht, ?_⟩⟩
    cases able with
    | error e => exact .inl ⟨e, hcan, href.symm⟩
    | ok u => exact .inr ⟨hcan, href.symm⟩

/-- The choice of the authority leaves the database as it is. -/
theorem renewalIssuer_reads {q : Env → Bool} {i : Ca.RenewInput} {old : Certificate}
    {caRef : String}
    (h : (Ca.renewalIssuer i old).Returns (Sem.under exec q) w (.ok caRef) w') : w = w' := by
  by_cases hnamed : Go.trimSpace i.caRef = ""
  · exact (renewalIssuer_returns hnamed h).1
  · unfold Ca.renewalIssuer at h
    rw [if_pos hnamed] at h
    exact (returns_pure.mp h).2

/-- **What a call of `renew` that returned went through.** -/
theorem renew_returns {q : Env → Bool} {s : Ca.Service} {id : Nat} {i : Ca.RenewInput}
    {r : Ca.RenewResult}
    (h : (s.renew id i).Returns (Sem.under exec q) w (.ok r) w') : ∃ old caRef c request res v,
      w.ca.certificates.get? id = some old ∧
      (Ca.renewalIssuer i old).Returns (Sem.under exec q) w (.ok caRef) w ∧
      old.certPEM = some c ∧
      Ca.renewalRequest s i old caRef (Ca.renewalDays s i old)
        (Pki.subjectFromPKIX c.subject) = .ok request ∧
      (s.issue request).Returns exec w (.ok res) v ∧
      r.certificate = { res.certificate with renewedFrom := some old.id } ∧
      ∃ u u' revoked, (setRenewedFrom res.certificate.id old.id).Returns exec v (.ok ()) u ∧
        (Ca.revokeOldIf i.revokeOld old res.certificate).Returns exec u (.ok revoked) u' ∧
        w'.ca = u'.ca := by
  unfold Ca.Service.renew at h
  obtain ⟨old, _, hget, h⟩ := returns_bind.mp h
  obtain ⟨hold, rfl⟩ := getCertificate_returns hget.of_under
  obtain ⟨caRef, _, href, h⟩ := returns_bind.mp h
  obtain rfl := renewalIssuer_reads href
  obtain ⟨subject, _, hsubject, h⟩ := returns_bind.mp h
  obtain ⟨hparsed, rfl⟩ := returns_ofExcept.mp hsubject
  obtain ⟨request, _, hrequested, h⟩ := returns_bind.mp h
  obtain ⟨hrequest, rfl⟩ := returns_ofExcept.mp hrequested
  obtain ⟨res, v, hissue, h⟩ := returns_bind.mp h
  obtain ⟨_, u, hlink, h⟩ := returns_bind.mp h
  obtain ⟨revoked, u', hrevoked, h⟩ := returns_bind.mp h
  obtain ⟨_, v', haudit, h⟩ := returns_bind.mp h
  obtain ⟨rfl, rfl⟩ := returns_pure.mp h
  cases hpem : old.certPEM with
  | none =>
    unfold Ca.subjectOf at hparsed
    rw [hpem] at hparsed
    cases hparsed
  | some c =>
    obtain rfl : Pki.subjectFromPKIX c.subject = subject :=
      Except.ok.inj ((subjectOf_eq_ok hpem).symm.trans hparsed)
    exact ⟨old, caRef, c, request, res, v, hold, href, hpem, hrequest, hissue.of_under, rfl, u, u',
      revoked, hlink.of_under, hrevoked.of_under,
      Act.Returns.reads (audit_uses s _ _ _ _) haudit.of_under⟩

/-! ## Two signatures -/

/-- The usages of a signature are those of its profile. -/
theorem SignedAt.usages {p p' : SignParams} {t t' : Time} {c c' : X509} (h : SignedAt p t c)
    (h' : SignedAt p' t' c') (hprofile : p'.profile = p.profile) :
    c'.keyUsage = c.keyUsage ∧ c'.extKeyUsage = c.extKeyUsage ∧ c'.isCA = c.isCA := by
  obtain ⟨serial, digest, hc⟩ := h.signature
  obtain ⟨serial', digest', hc'⟩ := h'.signature
  obtain ⟨-, -, -, -, husage, hca, -⟩ := Pki.x509CreateCertificate_ok hc
  obtain ⟨-, -, -, -, husage', hca', -⟩ := Pki.x509CreateCertificate_ok hc'
  rw [husage, husage', hca, hca', (Pki.x509CreateCertificate_issuer hc).1,
    (Pki.x509CreateCertificate_issuer hc').1]
  unfold SignParams.template
  dsimp only
  rw [hprofile]
  split
  · exact ⟨rfl, rfl, rfl⟩
  · exact ⟨rfl, rfl, rfl⟩

/-- The name and the key of the issuer of a signature. -/
theorem SignedAt.issuer {p : SignParams} {t : Time} {c : X509} (h : SignedAt p t c) :
    c.issuer = p.issuer.subject ∧ c.signedBy = p.issuerKey.publicKey := by
  obtain ⟨serial, digest, hc⟩ := h.signature
  obtain ⟨-, -, -, -, -, -, -, -, -, hsigned, -⟩ := Pki.x509CreateCertificate_ok hc
  exact ⟨(Pki.x509CreateCertificate_issuer hc).2.1, hsigned⟩

/-- How long a signature lasts. -/
theorem SignedAt.lifeDays {p : SignParams} {t : Time} {c : X509} (h : SignedAt p t c) :
    lifeDays c = (Pki.daySeconds p.lifetime + 300) / 86400 := by
  obtain ⟨_, _, _, hbefore, hafter⟩ := SignedAt.columns h
  obtain ⟨serial, digest, hc⟩ := h.signature
  have hencodable := Pki.x509CreateCertificate_encodable hc
  rw [Pki.template_notBefore, Pki.template_notAfter] at hencodable
  have hsum := Pki.addDays_eq h.time hencodable.1 hencodable.2
  have hlength (t d : Int) : t + d - (t - 300) = d + 300 := by omega
  unfold Goca.lifeDays
  rw [hbefore, hafter, hsum]
  exact congrArg (· / 86400) (hlength t _)

/-! ## What a renewal keeps -/

/-- A request that leaves authority, days and key type to the old certificate. -/
structure WithoutOverrides (i : Ca.RenewInput) : Prop where
  days : i.days ≤ 0
  caRef : Go.trimSpace i.caRef = ""
  keyType : Go.trimSpace i.keyType = ""

/-- What every renewal carries over: the profile with its usages, and the key on request. -/
structure Carried (i : Ca.RenewInput) (old new : Certificate) (c c' : X509) : Prop where
  profile : new.profile = old.profile
  usages : c'.keyUsage = c.keyUsage ∧ c'.extKeyUsage = c.extKeyUsage ∧ c'.isCA = c.isCA
  key : i.sameKey = true → c'.publicKey = c.publicKey

/-- Two certificates with one subject, the same names and the same length of validity. -/
structure SameIdentity (c c' : X509) : Prop where
  subject : c'.subject = c.subject
  names : SameNames c'.sans c.sans
  lifeDays : lifeDays c' = lifeDays c

/-- A certificate whose identity a renewal keeps. -/
structure IdentityKept (s : Ca.Service) (c : X509) : Prop where
  subject : SubjectKept c.subject
  names : NamesKept c.sans
  span : SpanKept s c

omit [Go.Runtime] in
/-- The days that a request of a renewal is signed for. -/
theorem lifetime_of_renewal {s : Ca.Service} {i : Ca.RenewInput} {old : Certificate}
    {i' : Ca.IssueInput} {p : SignParams} (hdays : i.days ≤ 0)
    (hrequested : i'.days = Ca.renewalDays s i old) (h : p.days = issuanceDays s i') :
    p.lifetime = renewedDays s old := by
  unfold SignParams.lifetime renewedDays standardDays
  rw [h]
  unfold issuanceDays
  rw [hrequested]
  unfold Ca.renewalDays
  dsimp only
  rw [if_pos hdays]
  by_cases hspan : 0 < old.notAfter.wholeDays old.notBefore
  · rw [if_pos hspan, if_pos hspan, if_neg (not_le.mpr hspan), if_neg (not_le.mpr hspan)]
  · rw [if_neg hspan, if_neg hspan, ite_self]

/-- The text of a profile is read as that profile. -/
theorem parseProfile_text (p : Profile) : Pki.parseProfile p.text = .ok p := by
  have hclean : Go.toLower (Go.trimSpace p.text) = p.text := by
    cases p <;> rfl
  unfold Pki.parseProfile
  simp only [hclean]
  cases p <;> simp [Profile.text]

/-- What a renewal that returned has made: a certificate signed by the authority `row`, which the
chosen reference matches. -/
structure Renewal (q : Env → Bool) (s : Ca.Service) (i : Ca.RenewInput) (w : World)
    (old new : Certificate) (caRef : String) (row : CA) (p : SignParams) (c c' : X509) :
    Prop where
  chosen : (Ca.renewalIssuer i old).Returns (Sem.under exec q) w (.ok caRef) w
  resolved : row ∈ refMatches w.ca.cas caRef
  authority : new.caID = row.id
  certificate : row.certPEM = some p.issuer
  privateKey : row.keyEnc = some p.issuerKey
  signed : ∃ t, SignedAt p t c'
  pem : new.certPEM = some c'
  carried : Carried i old new c c'
  identity : SameIdentity c c' ↔ IdentityKept s c
  valid : i.sameKey = false → Acceptable c.subject
  typed : i.sameKey = false → ∃ kt, Pki.parseKeyType (renewedKeyType s i old) = .ok kt
  readable : ∃ sans, Pki.parseSANs c.sans.strings = .ok sans

theorem renew_renewal {q : Env → Bool} {s : Ca.Service} {i : Ca.RenewInput} {issuer : CA}
    {p₀ : SignParams} {old : Certificate} {c : X509} {r : Ca.RenewResult}
    (hplain : WithoutOverrides i) (hold : Issued w issuer p₀ old c)
    (h : (s.renew old.id i).Returns (Sem.under exec q) w (.ok r) w') :
    ∃ caRef row p c', Renewal q s i w old r.certificate caRef row p c c' := by
  obtain ⟨old', caRef, c₀, request, res, v, hrow, href, hpem, hrequest, hissue, hnew, _⟩ :=
    renew_returns h
  obtain rfl : old = old' := Option.some.inj (hold.row.symm.trans hrow)
  obtain rfl : c = c₀ := Option.some.inj (hold.pem.symm.trans hpem)
  obtain ⟨row, m, p, c', createdAt, hrun, hcert, _⟩ := issue_returns hissue
  obtain ⟨hparams, hreq⟩ := renewalParams hrequest hrun
  obtain ⟨t, ht⟩ := hrun.signed
  obtain ⟨t₀, ht₀⟩ := hold.signed
  obtain ⟨hsubject, hsans, hkey, _, _⟩ := SignedAt.columns ht
  obtain ⟨hsubject₀, hsans₀, _, _, _⟩ := SignedAt.columns ht₀
  have hprofile : p.profile = p₀.profile := by
    have hparsed := hrun.profile
    rw [hreq.profile, hold.profile, parseProfile_text] at hparsed
    exact (Except.ok.inj hparsed).symm
  have hread : Pki.parseSANs c.sans.strings = .ok p.csr.sans := hold.names ▸ hparams.names
  have hnames (hcn : Go.trimSpace c.subject.commonName = c.subject.commonName) :
      SameNames c'.sans c.sans ↔ NamesKept c.sans := by
    rw [hsans, renewed_sans (hsans₀ ▸ hread) hparams.override ?_ hprofile]
    · exact sameNames_iff hold.addresses hread
    · rw [hparams.subject, ← hsubject₀]
      exact hcn
  have hspan : lifeDays c' = lifeDays c ↔ SpanKept s c := by
    rw [SignedAt.lifeDays ht, lifetime_of_renewal hplain.days hreq.days hrun.days]
    exact renewedDays_iff hold.notBefore hold.notAfter
  have hsubjects : c'.subject = c.subject ↔ SubjectKept c.subject := by
    rw [hsubject, hparams.subject]
    exact pkix_eq_iff
  refine ⟨caRef, row, p, c', href, hreq.caRef ▸ hrun.resolved, ?_, hrun.certificate,
    hrun.privateKey, hrun.signed, ?_, ⟨?_, SignedAt.usages ht₀ ht hprofile, ?_⟩, ⟨?_, ?_⟩,
    fun hfresh => validate_iff.mp (hparams.valid hfresh), hparams.typed, _, hread⟩
  · rw [hnew, hcert]
    rfl
  · rw [hnew, hcert]
    rfl
  · rw [hnew, hcert, hold.profile, ← hprofile]
    simp only [inserted, Certificate.stored, Ca.IssueInput.record]
    exact nz_profile p.profile
  · intro hkeep
    obtain ⟨key, hstored, hpub⟩ := hparams.key hkeep
    rw [hkey, hpub]
    exact (hold.ownKey key hstored).2
  · intro hsame
    have hkept := hsubjects.mp hsame.subject
    exact ⟨hkept, (hnames hkept.commonName).mp hsame.names, hspan.mp hsame.lifeDays⟩
  · intro hkept
    exact ⟨hsubjects.mpr hkept.subject, (hnames hkept.subject.commonName).mpr hkept.names,
      hspan.mpr hkept.span⟩

end Goca
