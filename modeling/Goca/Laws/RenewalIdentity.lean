import Goca.Laws.Renewal

/-!
# The identity of a renewed certificate

A renewal leaves its authority to the old certificate: the old issuer signs again while it can, and
the default authority signs where it cannot. A renewal that the clock, the issuer and the
constraints allow succeeds whatever the subject, as long as the request for it is accepted.

- `renew_issued`: what a renewal stores can be renewed again.
- `returns_renew`: when a renewal succeeds.
- `renewal_identity`: what is kept, who signs, and when a renewal succeeds.
-/

set_option autoImplicit false

namespace Goca

open Go (Time URL)
open Goca.Store
open Goca.Pki (Name PrivateKey Profile SANSet SignParams SignedAt X509 IsAddress)
open Interleave (Act Sem)
open Interleave.Act

attribute [local irreducible] Interleave.Prog.Returns

section

variable [Go.Runtime] {ε α : Type} {w w' : World}

/-! ## The authority of a renewal -/

/-- Whether an authority can sign at a time. -/
def ableAt (issuer : CA) (t : Time) : Bool := (Ca.canIssue t issuer).isOk

omit [Go.Runtime] in
theorem ableAt_iff {issuer : CA} {t : Time} :
    ableAt issuer t = true ↔ Ca.canIssue t issuer = .ok () := by
  unfold ableAt
  cases Ca.canIssue t issuer with
  | ok u => exact ⟨fun _ => rfl, fun _ => rfl⟩
  | error e => exact ⟨fun h => (nomatch h), fun h => (nomatch h)⟩

/-- An authority that is read by its number is the row of that number. -/
theorem getCA_returns {id : Nat} {c : CA} (h : (getCA id).Returns exec w (.ok c) w') :
    w.ca.cas.get? id = some c := by
  unfold getCA at h
  obtain ⟨r, hr, hrow⟩ := returns_mapResult.mp h
  obtain rfl := row_eq_ok hrow
  obtain ⟨e, _, hx, _⟩ := ca_returns hr
  exact Except.ok.inj hx

/-- An authority that is there is read. -/
theorem getCA_steady {P : Time → Bool} {id : Nat} {c : CA} {r : Except Go.Error CA}
    (hc : w.ca.cas.get? id = some c)
    (h : (getCA id).Returns (Sem.under exec (steady P)) w r w') : r = .ok c := by
  unfold getCA at h
  obtain ⟨x, hx, rfl⟩ := returns_mapResult.mp h
  obtain ⟨e, _, rfl, _⟩ := ca_steady hx
  change row (.ok (w.ca.cas.get? id)) = .ok c
  rw [hc]
  rfl

/-- **The issuer signs again** while it can. -/
theorem chosen_of_able {i : Ca.RenewInput} {issuer : CA} {old : Certificate} {caRef : String}
    (hnamed : Go.trimSpace i.caRef = "") (hissuer : w.ca.cas.get? old.caID = some issuer)
    (h : (Ca.renewalIssuer i old).Returns (Sem.under exec (steady (ableAt issuer))) w
      (.ok caRef) w') : caRef = toString issuer.id := by
  obtain ⟨rfl, r, hr, hcase⟩ := renewalIssuer_returns hnamed h
  obtain rfl := getCA_steady hissuer hr
  rcases hcase with ⟨e, herr, _⟩ | ⟨_, t, hok, ht, hcase⟩
  · cases herr
  obtain rfl := Except.ok.inj hok
  obtain ⟨e, he, rfl⟩ := now_under ht
  have hable := ableAt_iff.mp (steady_iff.mp he).2
  rcases hcase with ⟨e, herr, _⟩ | ⟨_, href⟩
  · rw [hable] at herr
    cases herr
  · exact href

/-- **The default authority signs** where the issuer cannot. -/
theorem chosen_of_unable {q : Env → Bool} {i : Ca.RenewInput} {issuer : CA} {old : Certificate}
    {caRef : String} (hnamed : Go.trimSpace i.caRef = "")
    (hissuer : w.ca.cas.get? old.caID = some issuer)
    (hq : ∀ e, q e = true → ableAt issuer e.now = false)
    (h : (Ca.renewalIssuer i old).Returns (Sem.under exec q) w (.ok caRef) w') : caRef = "" := by
  obtain ⟨rfl, r, hr, hcase⟩ := renewalIssuer_returns hnamed h
  rcases hcase with ⟨e, _, href⟩ | ⟨c, t, rfl, ht, hcase⟩
  · exact href
  obtain rfl : issuer = c :=
    Option.some.inj (hissuer.symm.trans (getCA_returns hr.of_under))
  obtain ⟨e, he, rfl⟩ := now_under ht
  rcases hcase with ⟨_, _, href⟩ | ⟨hcan, _⟩
  · exact href
  · have hunable := hq e he
    rw [ableAt_iff.mpr hcan] at hunable
    cases hunable

omit [Go.Runtime] in
/-- The number of an authority finds that authority alone where no other has it for a slug or a
name. -/
theorem eq_of_refMatches {t : Sql.Table CA} {issuer row : CA} (hissuer : issuer ∈ t.rows)
    (halone : ∀ ca ∈ t.rows, ca.slug = toString issuer.id ∨ ca.name = toString issuer.id →
      ca = issuer) (h : row ∈ refMatches t (toString issuer.id)) : row = issuer := by
  rw [refMatches_toString] at h
  obtain ⟨hrow, hslug | hname | hid⟩ := mem_matching.mp h
  · exact halone row hrow (.inl hslug)
  · exact halone row hrow (.inr hname)
  · exact Sql.Table.eq_of_key_eq hrow hissuer (Go.toString_inj.mp hid)

omit [Go.Runtime] in
theorem mem_refMatches_self {t : Sql.Table CA} {issuer : CA} (h : issuer ∈ t.rows) :
    issuer ∈ refMatches t (toString issuer.id) := by
  rw [refMatches_toString]
  exact mem_matching.mpr ⟨h, .inr (.inr rfl)⟩

/-! ## What a renewal stores -/

theorem setRenewedFrom_returns {id predecessor : Nat} {u : Unit}
    (h : (setRenewedFrom id predecessor).Returns exec w (.ok u) w') :
    w'.ca = w.ca.updateCertificates (·.id == id)
      (fun c => { c with renewedFrom := some predecessor }) fun _ => rfl := by
  obtain ⟨e, _, _, rfl⟩ := ca_returns h
  rfl

omit [Go.Runtime] in
theorem get?_updateCertificates {t : CaTables} {p : Certificate → Bool}
    {f : Certificate → Certificate} {hf : ∀ c, (f c).id = c.id} {id : Nat} :
    (t.updateCertificates p f hf).certificates.get? id =
      (t.certificates.get? id).map fun c => if p c then f c else c :=
  Sql.Table.get?_update t.certificates p f hf id

/-- A revocation leaves every other certificate as it is. -/
theorem revokeOldIf_returns {wanted : Bool} {old new : Certificate} {b : Bool}
    (h : (Ca.revokeOldIf wanted old new).Returns exec w (.ok b) w') :
    w'.ca.cas = w.ca.cas ∧ ∀ id, id ≠ old.id →
      w'.ca.certificates.get? id = w.ca.certificates.get? id := by
  unfold Ca.revokeOldIf at h
  split at h
  · obtain ⟨_, v, hrevoked, h⟩ := returns_bind.mp h
    obtain ⟨_, rfl⟩ := returns_pure.mp h
    obtain ⟨n, u, hn, h⟩ := returns_bind.mp (returns_mapError.mp hrevoked)
    obtain ⟨_, rfl⟩ := returns_failIf.mp h
    obtain ⟨e, _, _, rfl⟩ := ca_returns hn
    refine ⟨rfl, fun id hid => ?_⟩
    refine get?_updateCertificates.trans ?_
    cases hrow : w.ca.certificates.get? id with
    | none => rfl
    | some c =>
      have hkey : c.id = id := Sql.Table.key_of_get? hrow
      have hother : Certificate.unrevoked old.id c = false := by
        unfold Certificate.unrevoked
        rw [hkey, beq_eq_false_iff_ne.mpr hid, Bool.false_and]
      rw [Option.map_some, if_neg (by rw [hother]; exact Bool.false_ne_true)]
  · obtain ⟨_, rfl⟩ := returns_pure.mp h
    exact ⟨rfl, fun _ _ => rfl⟩

/-- A request for the key of the old certificate holds addresses only. -/
theorem renewalRequest_addresses {s : Ca.Service} {i : Ca.RenewInput} {old : Certificate}
    {caRef : String} {days : Int} {n : Name} {i' : Ca.IssueInput}
    (h : Ca.renewalRequest s i old caRef days (Pki.subjectFromPKIX n) = .ok i') :
    ∀ csr, i'.csrPEM = .csr csr → ∀ ip ∈ csr.sans.ips, IsAddress ip := by
  intro csr hcsr
  by_cases hkey : i.sameKey = true
  · obtain ⟨key, sans, hstored, hsigns, hparsed⟩ := renewalRequest_same_ok hkey h
    obtain ⟨i'', hi'', _, _, _, hreqCSR, _⟩ := renewalRequest_same s caRef days
      (Pki.subjectFromPKIX n) hkey hstored hsigns hparsed
    obtain rfl : i'' = i' := Except.ok.inj (hi''.symm.trans h)
    rw [hreqCSR] at hcsr
    cases hcsr
    exact Pki.parseSANs_addresses hparsed
  · unfold Ca.renewalRequest at h
    dsimp only at h
    rw [if_neg hkey] at h
    cases h
    cases hcsr

/-- **What a renewal stores** is the row of a certificate that goca signed, as what `Issue` stores
is. -/
theorem renew_issued {s : Ca.Service} {id : Nat} {i : Ca.RenewInput} {r : Ca.RenewResult}
    (h : (s.renew id i).Returns exec w (.ok r) w') :
    ∃ issuer p c, Issued w' issuer p r.certificate c := by
  have h : (s.renew id i).Returns (Sem.under exec fun _ => true) w (.ok r) w' := by
    rwa [Sem.under_true]
  obtain ⟨old, caRef, c₀, request, res, v, hold, _, _, hrequest, hissue, hnew, u, u', revoked,
    hlink, hrevoked, htables⟩ := renew_returns h
  obtain ⟨issuer, p, c, hissued⟩ := issue_issued (renewalRequest_addresses hrequest) hissue
  obtain ⟨row, m, p', c', createdAt, _, hcert, _⟩ := issue_returns hissue
  have hlink := setRenewedFrom_returns hlink
  obtain ⟨hcas, hothers⟩ := revokeOldIf_returns hrevoked
  have hne : res.certificate.id ≠ old.id := by
    have hbound := w.ca.certificates.bounded old (Sql.Table.mem_of_get? hold)
    have hnumber : res.certificate.id = w.ca.certificates.seq + 1 := by
      rw [hcert]
      rfl
    rw [hnumber]
    change old.id ≤ w.ca.certificates.seq at hbound
    omega
  refine ⟨issuer, p, c, ?_⟩
  rw [hnew]
  refine { hissued with row := ?_, authority := ?_ }
  · change w'.ca.certificates.get? res.certificate.id = _
    rw [htables, hothers _ hne, hlink, get?_updateCertificates, hissued.row, Option.map_some,
      if_pos (beq_self_eq_true _)]
  · change w'.ca.cas.get? res.certificate.caID = _
    rw [htables, hcas, hlink]
    exact hissued.authority

/-- What goca signed stays what it is under every statement that does not complete its authority
once more: only its status and its link to a predecessor change. -/
theorem Issued.step {e : Env} {st : Stmt} {x : st.Ans} {issuer : CA} {p : SignParams}
    {old : Certificate} {c : X509} (hold : Issued w issuer p old c)
    (h : exec e w st = some (x, w')) (hst : ∀ r, st ≠ .ca (.completeCA issuer.id r)) :
    ∃ issuer' old', Issued w' issuer' p old' c ∧ issuer'.id = issuer.id ∧ old'.id = old.id := by
  have hcert := cert_step h old.id
  have hauthority := authority_step h old.caID
  have hid : issuer.id = old.caID := Sql.Table.key_of_get? hold.authority
  rw [hold.row] at hcert
  rw [hold.authority] at hauthority
  obtain ⟨issuer', hissuer', hsame⟩ : ∃ issuer', w'.ca.cas.get? old.caID = some issuer' ∧
      issuer'.id = issuer.id ∧ issuer'.certPEM = issuer.certPEM ∧
        issuer'.keyEnc = issuer.keyEnc := by
    generalize w'.ca.cas.get? old.caID = row at hauthority
    cases hauthority with
    | same => exact ⟨_, rfl, rfl, rfl, rfl⟩
    | marked => exact ⟨_, rfl, rfl, rfl, rfl⟩
    | status => exact ⟨_, rfl, rfl, rfl, rfl⟩
    | numbered => exact ⟨_, rfl, rfl, rfl, rfl⟩
    | completed r => exact absurd (hid ▸ rfl) (hst r)
  obtain ⟨old', hold', hcolumns⟩ : ∃ old', w'.ca.certificates.get? old.id = some old' ∧
      ({ old' with status := old.status, revokedAt := old.revokedAt, revokeCode := old.revokeCode,
                   renewedFrom := old.renewedFrom } : Certificate) = old := by
    generalize w'.ca.certificates.get? old.id = row at hcert
    cases hcert with
    | same => exact ⟨_, rfl, rfl⟩
    | revoked => exact ⟨_, rfl, rfl⟩
    | unrevoked => exact ⟨_, rfl, rfl⟩
    | renewed => exact ⟨_, rfl, rfl⟩
  refine ⟨issuer', old', ?_, hsame.1, Sql.Table.key_of_get? hold'⟩
  obtain ⟨_, _, hpem, hkey, hsigned, hlen, hprofile, hcertPEM, hnames, htype, hown, hbefore, hafter,
    haddresses⟩ := hold
  rw [← hcolumns] at hold' hissuer' hprofile hcertPEM hnames htype hown hbefore hafter
  exact ⟨hold', hissuer', hsame.2.1.trans hpem, hsame.2.2.trans hkey, hsigned, hlen, hprofile,
    hcertPEM, hnames, htype, hown, hbefore, hafter, haddresses⟩

/-! ## What a renewal signs -/

omit [Go.Runtime] in
/-- A template that breaks no rule of the encoding is signed. -/
theorem exists_x509CreateCertificate {t : Pki.Template} {issuer : X509} (pub : Pki.PublicKey)
    {priv : PrivateKey} (digest : String) (hlen : t.maxPathLen = 0)
    (hzero : t.isCA = false → t.maxPathLenZero = false)
    (hnames : ∀ n ∈ t.sans.ia5Names, Pki.isIA5 n = true) (hkey : issuer.publicKey = priv.publicKey)
    (htimes : Pki.encodableTime t.notBefore = true ∧ Pki.encodableTime t.notAfter = true) :
    ∃ c, Pki.x509CreateCertificate t (some issuer) pub priv digest = .ok c ∧
      c.serialNumber = t.serialNumber := by
  unfold Pki.x509CreateCertificate
  dsimp only
  have hleaf : ¬ (t.isCA = false ∧ t.maxPathLen ≠ -1 ∧
      (t.maxPathLen ≠ 0 ∨ t.maxPathLenZero = true)) := by
    rintro ⟨hca, _, hne | htrue⟩
    · exact hne hlen
    · rw [hzero hca] at htrue
      cases htrue
  have hfind : t.sans.ia5Names.find? (fun n => !Pki.isIA5 n) = none := by
    refine List.find?_eq_none.mpr fun n hn => ?_
    rw [hnames n hn]
    exact Bool.false_ne_true
  have hparent : ¬ ((some issuer).any fun p => p.publicKey != priv.publicKey) = true := by
    rw [Option.any_some, hkey, bne_self_eq_false]
    exact Bool.false_ne_true
  have hencodable : ¬ (Pki.encodableTime t.notBefore = false ∨
      Pki.encodableTime t.notAfter = false) := by
    rw [htimes.1, htimes.2]
    rintro (h | h) <;> cases h
  rw [if_neg (by rw [hlen]; decide), if_neg hleaf, hfind]
  dsimp only
  rw [if_neg hparent, if_neg hencodable]
  exact ⟨_, rfl, rfl⟩

omit [Go.Runtime] in
theorem SameNames.ia5Names {a b : SANSet} (h : SameNames a b) : a.ia5Names.Perm b.ia5Names :=
  (h.dns.append h.emails).append (h.uris.map _)

theorem template_leaf (p : SignParams) (serial : Nat) (t u : Time) (h : p.pathLen = 0) :
    (p.template serial t u).maxPathLen = 0 ∧ (p.template serial t u).serialNumber = serial ∧
      ((p.template serial t u).isCA = false → (p.template serial t u).maxPathLenZero = false) := by
  unfold SignParams.template
  dsimp only
  split
  · exact ⟨h, rfl, fun hca => (nomatch hca)⟩
  · exact ⟨rfl, rfl, fun _ => rfl⟩

/-! ## Key types -/

omit [Go.Runtime] in
/-- The type of a key is a selectable one, the size of an RSA key, or not known. -/
theorem keyTypeOf_cases (k : Pki.PublicKey) :
    Pki.keyTypeOf k ∈ Pki.keyTypes.map Pki.KeyType.text ∨
      (∃ bits : Nat, Pki.keyTypeOf k = "rsa-" ++ toString bits) ∨
      Pki.keyTypeOf k ∈ ["ec-unknown", "unknown"] := by
  unfold Pki.keyTypeOf
  cases k.kind with
  | rsa bits =>
    dsimp only
    unfold Pki.rsaKeyType
    split
    · exact .inl (by decide)
    · split
      · exact .inl (by decide)
      · exact .inr (.inl ⟨bits, rfl⟩)
  | ecOther | other => exact .inr (.inr (by decide))
  | _ => exact .inl (by decide)

omit [Go.Runtime] in
/-- The type of a key has lower case letters, digits and hyphens only. -/
theorem keyTypeOf_runes (k : Pki.PublicKey) :
    ∀ c ∈ (Pki.keyTypeOf k).toList, Ca.isSlugRune c = true ∨ c = '-' := by
  rcases keyTypeOf_cases k with h | ⟨bits, h⟩ | h
  · obtain ⟨kt, _, htext⟩ := List.mem_map.mp h
    rw [← htext]
    cases kt <;> simp [Pki.KeyType.text, Ca.isSlugRune]
  · intro c hc
    rw [h, String.toList_append] at hc
    rcases List.mem_append.mp hc with hc | hc
    · have hrsa : ∀ c ∈ "rsa-".toList, Ca.isSlugRune c = true ∨ c = '-' := by
        simp [Ca.isSlugRune]
      exact hrsa c hc
    · exact .inl (isSlugRune_of_isDigit (Go.isDigit_of_mem_toString hc))
  · rcases List.mem_cons.mp h with h | h
    · rw [h]
      simp [Ca.isSlugRune]
    · rw [List.mem_singleton.mp h]
      simp [Ca.isSlugRune]

omit [Go.Runtime] in
theorem keyTypeOf_ne_empty (k : Pki.PublicKey) : Pki.keyTypeOf k ≠ "" := by
  intro hempty
  rcases keyTypeOf_cases k with h | ⟨bits, h⟩ | h
  · rw [hempty] at h
    exact absurd h (by decide)
  · rw [hempty] at h
    have hruns := congrArg String.toList h
    rw [String.toList_append] at hruns
    cases hruns
  · rw [hempty] at h
    exact absurd h (by decide)

/-- `ParseKeyType` normalises nothing in the type of a key. -/
theorem normal_keyTypeOf (k : Pki.PublicKey) :
    Go.replaceRune (Go.replaceRune (Go.toLower (Go.trimSpace (Pki.keyTypeOf k))) ' ' ['-']) '_'
      ['-'] = Pki.keyTypeOf k := by
  have hruns := keyTypeOf_runes k
  have habsent (c : Char) (hslug : Ca.isSlugRune c = false) (hne : c ≠ '-') :
      c ∉ (Pki.keyTypeOf k).toList := by
    intro hc
    rcases hruns c hc with h | h
    · rw [hslug] at h
      cases h
    · exact hne h
  rw [toLower_trimSpace hruns, Go.replaceRune_of_not_mem (habsent ' ' (by decide) (by decide)),
    Go.replaceRune_of_not_mem (habsent '_' (by decide) (by decide))]

omit [Go.Runtime] in
/-- Of the names that begin as the type of an RSA key does, the selectable key types alone are
read. -/
theorem rsa_selectable {names : List String} {d : String}
    (hnames : ∀ t ∈ names, t.toList.take 4 = "rsa-".toList → t ∈ Pki.keyTypes.map Pki.KeyType.text)
    (h : "rsa-" ++ d ∈ names) : "rsa-" ++ d ∈ Pki.keyTypes.map Pki.KeyType.text := by
  refine hnames _ h ?_
  rw [String.toList_append]
  exact List.take_left' rfl

/-- **A key type is read back** where it is a selectable one. An RSA key of less than 3072 bits is
reported with its size, of which 2048 bits alone are selectable. -/
theorem parseKeyType_keyTypeOf {k : Pki.PublicKey} :
    (∃ kt, Pki.parseKeyType (Pki.keyTypeOf k) = .ok kt) ↔
      Pki.keyTypeOf k ∈ Pki.keyTypes.map Pki.KeyType.text := by
  have hnormal := normal_keyTypeOf k
  have hcases := keyTypeOf_cases k
  generalize Pki.keyTypeOf k = s at hnormal hcases ⊢
  unfold Pki.parseKeyType
  dsimp only
  rw [hnormal]
  constructor
  · rintro ⟨kt, h⟩
    rcases hcases with hselectable | ⟨bits, rfl⟩ | hunknown
    · exact hselectable
    · split at h
      · next hmem => exact rsa_selectable (by decide +kernel) hmem
      split at h
      · next hmem => exact rsa_selectable (by decide +kernel) hmem
      split at h
      · next hmem => exact rsa_selectable (by decide +kernel) hmem
      split at h
      · next hmem => exact rsa_selectable (by decide +kernel) hmem
      split at h
      · next hmem => exact rsa_selectable (by decide +kernel) hmem
      split at h
      · next hmem => exact rsa_selectable (by decide +kernel) hmem
      split at h
      · next hmem => exact rsa_selectable (by decide +kernel) hmem
      split at h
      · next hmem => exact rsa_selectable (by decide +kernel) hmem
      cases h
    · rcases List.mem_cons.mp hunknown with rfl | hunknown
      · cases h
      · obtain rfl := List.mem_singleton.mp hunknown
        cases h
  · intro h
    obtain ⟨kt, _, rfl⟩ := List.mem_map.mp h
    exact ⟨kt, by cases kt <;> rfl⟩

omit [Go.Runtime] in
/-- A renewal without a key type of its own asks for the old one. -/
theorem keyType_of_renewal {s : Ca.Service} {i : Ca.RenewInput} {old : Certificate}
    {k : Pki.PublicKey} (hblank : Go.trimSpace i.keyType = "")
    (h : old.keyType = Pki.keyTypeOf k) : renewedKeyType s i old = old.keyType := by
  have htype : Go.trimSpace old.keyType ≠ "" := by
    rw [h, Go.trimSpace_eq_self fun c hc => (slugRune_facts (keyTypeOf_runes k c hc)).2.2]
    exact keyTypeOf_ne_empty k
  have hfirst : Ca.firstNonEmpty [i.keyType, old.keyType, s.cfg.defaultKeyType] = old.keyType := by
    unfold Ca.firstNonEmpty
    rw [List.find?_cons_of_neg (by simpa using hblank),
      List.find?_cons_of_pos (by simpa using htype), Option.getD_some]
  unfold renewedKeyType
  rw [hfirst]
  unfold Ca.firstNonEmpty
  rw [List.find?_cons_of_pos (by simpa using htype), Option.getD_some]

/-! ## Renewals that succeed -/

section Steady

variable {P : Time → Bool} {t : Time} {s : Ca.Service} {i : Ca.RenewInput}

/-- The issuer is chosen at a time at which it can sign. -/
theorem returns_renewalIssuer {issuer : CA} {old : Certificate} (hpos : 0 < t) (ht : P t = true)
    (hnamed : Go.trimSpace i.caRef = "") (hissuer : w.ca.cas.get? old.caID = some issuer)
    (hcan : Ca.canIssue t issuer = .ok ()) :
    (Ca.renewalIssuer i old).Returns (Sem.under exec (steady P)) w
      (.ok (toString issuer.id)) w := by
  have hget : (getCA old.caID).Returns (Sem.under exec (steady P)) w (.ok issuer) w := by
    refine returns_mapResult.mpr ⟨.ok (some issuer), ?_, rfl⟩
    exact returns_ca 0 "" hpos ht (congrArg Except.ok hissuer)
  unfold Ca.renewalIssuer
  rw [if_neg (not_not.mpr hnamed)]
  refine returns_bind.mpr ⟨.ok issuer, w, returns_attempt.mpr hget, ?_⟩
  refine returns_bind.mpr ⟨.ok (), w, ?_, returns_pure.mpr ⟨rfl, rfl⟩⟩
  exact returns_attempt.mpr (returns_checkCanIssue hpos ht hcan)

/-- The default authority is chosen at a time at which the issuer cannot sign. -/
theorem returns_renewalIssuer_default {issuer : CA} {old : Certificate} {err : Go.Error}
    (hpos : 0 < t) (ht : P t = true) (hnamed : Go.trimSpace i.caRef = "")
    (hissuer : w.ca.cas.get? old.caID = some issuer) (hcan : Ca.canIssue t issuer = .error err) :
    (Ca.renewalIssuer i old).Returns (Sem.under exec (steady P)) w (.ok "") w := by
  have hget : (getCA old.caID).Returns (Sem.under exec (steady P)) w (.ok issuer) w := by
    refine returns_mapResult.mpr ⟨.ok (some issuer), ?_, rfl⟩
    exact returns_ca 0 "" hpos ht (congrArg Except.ok hissuer)
  have hchecked : (Ca.checkCanIssue issuer).Returns (Sem.under exec (steady P)) w (.error err) w :=
    returns_now_bind.mpr ⟨t, w, returns_now hpos ht, returns_ofExcept_any.mpr ⟨hcan, rfl⟩⟩
  unfold Ca.renewalIssuer
  rw [if_neg (not_not.mpr hnamed)]
  refine returns_bind.mpr ⟨.ok issuer, w, returns_attempt.mpr hget, ?_⟩
  exact returns_bind.mpr ⟨.error err, w, returns_attempt.mpr hchecked, returns_pure.mpr ⟨rfl, rfl⟩⟩

/-- A certificate that is renewed with a new key: its subject is accepted, and the type of its key is
a selectable one. -/
structure Renewable (old : Certificate) (n : Name) : Prop where
  subject : Acceptable n
  keyType : old.keyType ∈ Pki.keyTypes.map Pki.KeyType.text

/-- The key and the names of a renewal come back where the names are read, a key that is kept is
stored, and a subject and a key type that are checked are accepted. -/
theorem returns_material {old : Certificate} (caRef : String) (days : Int) {n : Name}
    {k : Pki.PublicKey} {sans : SANSet} (hpos : 0 < t) (ht : P t = true)
    (hread : Pki.parseSANs old.sans = .ok sans) (htype : old.keyType = Pki.keyTypeOf k)
    (hblank : Go.trimSpace i.keyType = "") (hstored : i.sameKey = true → old.keyEnc ≠ none)
    (hsigns : ∀ key, old.keyEnc = some key → key.Signs)
    (hvalid : i.sameKey = true ∨ Renewable old n) : ∃ i' m,
      Ca.renewalRequest s i old caRef days (Pki.subjectFromPKIX n) = .ok i' ∧
      Requested i old caRef days (Pki.subjectFromPKIX n) i' ∧
      (s.keyMaterial i').Returns (Sem.under exec (steady P)) w (.ok m) w ∧
      i'.sanOverride = .ok none ∧ m.csr.sans = sans ∧
      m.csr.subject = (Pki.subjectFromPKIX n).pkix ∧
      (i'.subjectOverride = none ∨ i'.subjectOverride = some (Pki.subjectFromPKIX n)) := by
  by_cases hkey : i.sameKey = true
  · obtain ⟨key, hkeyEnc⟩ := Option.ne_none_iff_exists'.mp (hstored hkey)
    obtain ⟨i', hi', hreq, hmode, hnone, hcsr, hown⟩ := renewalRequest_same s caRef
      days (Pki.subjectFromPKIX n) hkey hkeyEnc (hsigns key hkeyEnc) hread
    have hmode := effectiveMode_of_mode hmode (by decide)
    refine ⟨i', ⟨Pki.requestFor key (Pki.subjectFromPKIX n) sans, some key,
      Pki.keyTypeOf key.publicKey⟩, hi', hreq, ?_, ?_, rfl, rfl, ?_⟩
    · unfold Ca.Service.keyMaterial
      rw [hmode]
      exact returns_ofExcept.mpr ⟨suppliedRequest_eq hcsr hown (hsigns key hkeyEnc) rfl, rfl⟩
    · unfold Ca.IssueInput.sanOverride
      rw [if_neg fun h => h.2 hnone]
    · unfold Ca.IssueInput.subjectOverride
      rw [hreq.subject]
      split
      · exact .inr rfl
      · exact .inl rfl
  · obtain ⟨i', hi', hreq, hmode, hnames, hkt⟩ := renewalRequest_fresh s old caRef days
      (Pki.subjectFromPKIX n) (Bool.not_eq_true _ ▸ hkey)
    have hmode := effectiveMode_of_mode hmode (by decide)
    obtain ⟨haccepted, hsupported⟩ := hvalid.resolve_left hkey
    have hsubject : i'.subject.validate = .ok () := by
      rw [hreq.subject]
      exact validate_iff.mpr haccepted
    obtain ⟨kt, hparsed⟩ := parseKeyType_keyTypeOf.mpr (htype ▸ hsupported)
    have hkind : Pki.parseKeyType (Ca.firstNonEmpty [i'.keyType, s.cfg.defaultKeyType]) =
        .ok kt := by
      rw [hkt]
      change Pki.parseKeyType (renewedKeyType s i old) = _
      rw [keyType_of_renewal hblank htype, htype, hparsed]
    rw [← hnames] at hread
    obtain ⟨key, _, hm⟩ := returns_generatedRequest (w := w) hpos ht hsubject hkind hread
    rw [hreq.subject] at hm
    refine ⟨i', ⟨Pki.requestFor key (Pki.subjectFromPKIX n) sans, some key, kt.text⟩, hi', hreq,
      ?_, ?_, rfl, rfl, ?_⟩
    · unfold Ca.Service.keyMaterial
      rw [hmode]
      exact hm
    · unfold Ca.IssueInput.sanOverride
      rw [hmode, if_neg fun h => nomatch h.1]
    · unfold Ca.IssueInput.subjectOverride
      rw [hmode, if_neg fun h => nomatch h.1]
      exact .inl rfl

/-- What a renewal at the time `t` under the authority `row`, with its certificate and key, needs
besides a subject and names. -/
structure Ready (s : Ca.Service) (i : Ca.RenewInput) (w : World) (t : Time) (row : CA) (cert : X509)
    (key : PrivateKey) (profile : Profile) (old : Certificate) : Prop where
  time : 0 < t
  able : Ca.canIssue t row = .ok ()
  certificate : row.certPEM = some cert
  privateKey : row.keyEnc = some key
  isCA : cert.isCA = true
  own : cert.publicKey = key.publicKey
  live : t.after cert.notAfter = false
  permitted : profile = .intermCA → i.allowSubordinateCA = true
  stored : i.sameKey = true → old.keyEnc ≠ none
  fits : (t.addDays (renewedDays s old)).after cert.notAfter = false
  encodable : Pki.encodableTime (t - 300) = true ∧
    Pki.encodableTime (t.addDays (renewedDays s old)) = true
  serial : ∃ serial, 1 ≤ serial ∧ serial ≤ 2 ^ 127 ∧
    ∀ r ∈ w.ca.certificates.rows, r.caID = row.id → r.serialHex ≠ Pki.serialHex serial

omit [Go.Runtime] in
/-- A serial that its authority has not used violates no constraint. -/
theorem certConflict_of_free {r : Certificate} (hauthority : w.ca.cas.get? r.caID ≠ none)
    (hfree : ∀ r' ∈ w.ca.certificates.rows, r'.caID = r.caID → r'.serialHex ≠ r.serialHex) :
    w.ca.certConflict r = none := by
  unfold CaTables.certConflict
  have hany : ¬ (w.ca.certificates.rows.any
      fun r' => r'.caID == r.caID && r'.serialHex == r.serialHex) = true := by
    intro h
    obtain ⟨r', hmem, hr'⟩ := List.any_eq_true.mp h
    rw [Bool.and_eq_true, beq_iff_eq, beq_iff_eq] at hr'
    exact hfree r' hmem hr'.1 hr'.2
  rw [if_neg hany, if_neg (by rw [Option.isNone_iff_eq_none]; exact hauthority)]

/-- A predecessor that is not revoked is revoked on request. -/
theorem returns_revokeOldIf (wanted : Bool) {old row : Certificate} (new : Certificate)
    (hpos : 0 < t) (ht : P t = true) (hrow : w.ca.certificates.get? old.id = some row)
    (hstatus : row.status = old.status) : ∃ b w',
      (Ca.revokeOldIf wanted old new).Returns (Sem.under exec (steady P)) w (.ok b) w' := by
  unfold Ca.revokeOldIf
  by_cases hwanted : wanted = true ∧ old.status ≠ .revoked
  · have hkey : row.id = old.id := Sql.Table.key_of_get? hrow
    have hcount : w.ca.certificates.count (Certificate.unrevoked old.id) ≠ 0 := by
      unfold Sql.Table.count
      intro hzero
      have hnone := List.countP_eq_zero.mp hzero row (Sql.Table.mem_of_get? hrow)
      unfold Certificate.unrevoked at hnone
      rw [hkey, beq_self_eq_true, Bool.true_and, bne_iff_ne, hstatus] at hnone
      exact hnone hwanted.2
    rw [if_pos hwanted]
    have hrevoked := returns_ca (w := w) (s := .revokeCertificate old.id Pki.reasonSuperseded) 0 ""
      hpos ht rfl
    have hdone : (revokeCertificate old.id Pki.reasonSuperseded).Returns
        (Sem.under exec (steady P)) w (.ok ()) _ :=
      returns_bind.mpr ⟨_, _, hrevoked, returns_failIf.mpr ⟨hcount, rfl⟩⟩
    exact ⟨true, _, returns_bind.mpr ⟨(), _, returns_mapError.mpr hdone,
      returns_pure.mpr ⟨rfl, rfl⟩⟩⟩
  · rw [if_neg hwanted]
    exact ⟨false, w, returns_pure.mpr ⟨rfl, rfl⟩⟩

/-- A link to the predecessor leaves the status of every certificate as it is. -/
theorem returns_setRenewedFrom (id predecessor : Nat) {k : Nat} {row : Certificate} (hpos : 0 < t)
    (ht : P t = true) (hrow : w.ca.certificates.get? k = some row) : ∃ w' row',
      (setRenewedFrom id predecessor).Returns (Sem.under exec (steady P)) w (.ok ()) w' ∧
        w'.ca.certificates.get? k = some row' ∧ row'.status = row.status := by
  have hlink := returns_ca (w := w) (s := .setRenewedFrom id predecessor) 0 "" hpos ht rfl
  refine ⟨_, if row.id == id then { row with renewedFrom := some predecessor } else row, hlink,
    get?_updateCertificates.trans ?_, ?_⟩
  · rw [hrow]
    rfl
  · split
    · rfl
    · rfl

/-- The request of a renewal is signed at a time at which nothing else stands in its way, where the
names are kept and the request is accepted. -/
theorem returns_request {issuer row : CA} {cert : X509} {key : PrivateKey} {p₀ : SignParams}
    {old : Certificate} {c : X509} {caRef : String} (hplain : WithoutOverrides i)
    (hold : Issued w issuer p₀ old c) (hrow : row ∈ refMatches w.ca.cas caRef)
    (hready : Ready s i w t row cert key p₀.profile old) (ht : P t = true)
    (hkept : NamesKept c.sans)
    (hcn : Go.trimSpace c.subject.commonName = c.subject.commonName)
    (hvalid : i.sameKey = true ∨ Renewable old c.subject) : ∃ request res v r,
      Ca.renewalRequest s i old caRef (Ca.renewalDays s i old) (Pki.subjectFromPKIX c.subject) =
        .ok request ∧
      (s.issue request).Returns (Sem.under exec (steady P)) w (.ok res) v ∧
      v.ca = w.ca.withCertificate r := by
  have hpos := hready.time
  obtain ⟨sans, hparsed⟩ := parseSANs_of_namesKept hold.addresses hkept
  have hread : Pki.parseSANs old.sans = .ok sans := hold.names ▸ hparsed
  obtain ⟨request, m, hrequest, hreq, hm, hnone, hsans, hsubject, hoverride⟩ :=
    returns_material (w := w) (s := s) caRef (Ca.renewalDays s i old) hpos ht hread hold.keyType
      hplain.keyType hready.stored (fun key hkey => (hold.ownKey key hkey).1) hvalid
  obtain ⟨t₀, ht₀⟩ := hold.signed
  obtain ⟨hsubject₀, hsans₀, _⟩ := SignedAt.columns ht₀
  obtain ⟨serial₀, digest₀, hc₀⟩ := ht₀.signature
  obtain ⟨serial, hlow, hhigh, hfree⟩ := hready.serial
  generalize hp : (⟨m.csr, cert, key, p₀.profile, issuanceDays s request, none,
    request.subjectOverride, 0⟩ : SignParams) = p
  have hlifetime : p.lifetime = renewedDays s old :=
    lifetime_of_renewal hplain.days hreq.days (by rw [← hp])
  have hname : p.subject = (Pki.subjectFromPKIX c.subject).pkix := by
    refine subject_of_override ?_ ?_
    · rw [← hp]
      exact hsubject
    · rw [← hp]
      exact hoverride
  have hnames : p.sans = sans := by
    have hcsr : p.csr.sans = sans := by
      rw [← hp]
      exact hsans
    rw [← hcsr] at hparsed
    rw [← hcsr]
    refine renewed_sans (hsans₀ ▸ hparsed) (by rw [← hp]) ?_ (by rw [← hp])
    rw [hname, ← hsubject₀]
    exact hcn
  have hia5 : ∀ n ∈ (p.template serial t (t.addDays p.lifetime)).sans.ia5Names,
      Pki.isIA5 n = true := by
    intro n hn
    rw [Pki.template_sans, hnames] at hn
    refine (Pki.x509CreateCertificate_issuer hc₀).2.2 n ?_
    rw [Pki.template_sans, ← hsans₀]
    exact (((sameNames_iff hold.addresses hparsed).mpr hkept).ia5Names.mem_iff).mp hn
  obtain ⟨hlen, hserial, hzero⟩ := template_leaf p serial t (t.addDays p.lifetime) (by rw [← hp])
  obtain ⟨c', hc', hnumber⟩ := exists_x509CreateCertificate m.csr.publicKey "" hlen hzero hia5
    hready.own (by
      rw [Pki.template_notBefore, Pki.template_notAfter, hlifetime]
      exact hready.encodable)
  have hconflict : w.ca.certConflict
      (inserted (request.record row p₀.profile m c') t) = none := by
    refine certConflict_of_free ?_ ?_
    · have hget := Sql.Table.get?_of_mem (mem_of_refMatches hrow)
      change w.ca.cas.get? row.id ≠ none
      change w.ca.cas.get? row.id = _ at hget
      rw [hget]
      exact Option.some_ne_none _
    · intro r hr hauthority
      have hne := hfree r hr hauthority
      change r.serialHex ≠ Pki.serialHex c'.serialNumber
      rwa [hnumber, hserial]
  have hprofile : Pki.parseProfile request.profile = .ok p₀.profile := by
    rw [hreq.profile, hold.profile]
    exact parseProfile_text _
  rw [← hreq.caRef] at hrow
  obtain ⟨res, v, hissue, _, htables⟩ := returns_issue (s := s) (m := m) hpos ht hrow hready.able
    hready.certificate hready.privateKey hprofile
    (fun hsub => hreq.allowSubordinateCA ▸ hready.permitted hsub) hm hnone hp.symm hready.isCA
    hready.live ⟨hlow, hhigh⟩ (hlifetime ▸ hready.fits) hc' hconflict
  exact ⟨request, res, v, _, hrequest, hissue, htables⟩

/-- What follows the signature of a renewal does not fail. Unless the old certificate is to be
revoked, it only links the new one to it. -/
theorem returns_renew_of_issue {old r : Certificate} {c : X509} {caRef : String}
    {request : Ca.IssueInput} {res : Ca.IssueResult} {v : World} (hpos : 0 < t) (ht : P t = true)
    (hold : w.ca.certificates.get? old.id = some old) (hpem : old.certPEM = some c)
    (hchosen : (Ca.renewalIssuer i old).Returns (Sem.under exec (steady P)) w (.ok caRef) w)
    (hrequest : Ca.renewalRequest s i old caRef (Ca.renewalDays s i old)
      (Pki.subjectFromPKIX c.subject) = .ok request)
    (hissue : (s.issue request).Returns (Sem.under exec (steady P)) w (.ok res) v)
    (htables : v.ca = w.ca.withCertificate r) : ∃ r w',
      (s.renew old.id i).Returns (Sem.under exec (steady P)) w (.ok r) w' ∧
        (i.revokeOld = false → w'.ca = v.ca.updateCertificates (·.id == res.certificate.id)
          (fun c => { c with renewedFrom := some old.id }) fun _ => rfl) := by
  have hrow : v.ca.certificates.get? old.id = some old := by
    rw [htables]
    exact get?_withCertificate_of_some hold _
  obtain ⟨v', row, hlink, hrow, hstatus⟩ := returns_setRenewedFrom res.certificate.id old.id
    hpos ht hrow
  obtain ⟨revoked, u, hrevoked⟩ := returns_revokeOldIf i.revokeOld res.certificate hpos ht hrow
    hstatus
  obtain ⟨u', haudit⟩ := returns_audit (ε := Go.Error) (P := P) s i.actor "cert.renew"
    old.commonName ("old_serial=" ++ old.serialHex ++ " new_serial=" ++ res.certificate.serialHex ++
      " same_key=" ++ Ca.boolText i.sameKey ++ " revoked_old=" ++ Ca.boolText revoked ++ " days=" ++
      toString (Ca.renewalDays s i old)) hpos ht u
  refine ⟨⟨{ res.certificate with renewedFrom := some old.id }, old, res.privateKey, res.chain,
    revoked⟩, u', ?_, fun hkeep => ?_⟩
  · unfold Ca.Service.renew
    refine returns_bind.mpr ⟨old, w, ?_, ?_⟩
    · refine returns_mapResult.mpr ⟨.ok (some old), ?_, rfl⟩
      exact returns_ca 0 "" hpos ht (congrArg Except.ok hold)
    refine returns_bind.mpr ⟨caRef, w, hchosen, ?_⟩
    refine returns_bind.mpr ⟨_, w, returns_ofExcept.mpr ⟨subjectOf_eq_ok hpem, rfl⟩, ?_⟩
    refine returns_bind.mpr ⟨request, w, returns_ofExcept.mpr ⟨hrequest, rfl⟩, ?_⟩
    refine returns_bind.mpr ⟨res, v, hissue, ?_⟩
    refine returns_bind.mpr ⟨(), v', hlink, ?_⟩
    refine returns_bind.mpr ⟨revoked, u, hrevoked, ?_⟩
    exact returns_bind.mpr ⟨(), u', haudit, returns_pure.mpr ⟨rfl, rfl⟩⟩
  · unfold Ca.revokeOldIf at hrevoked
    rw [if_neg fun hwanted => by rw [hkeep] at hwanted; cases hwanted.1] at hrevoked
    obtain ⟨_, rfl⟩ := returns_pure.mp hrevoked
    rw [Act.Returns.reads (audit_uses s _ _ _ _) haudit.of_under]
    exact setRenewedFrom_returns hlink.of_under

/-- **A renewal succeeds** at a time at which nothing else stands in its way, where the names are
kept and the request for it is accepted. -/
theorem returns_renew {issuer row : CA} {cert : X509} {key : PrivateKey} {p₀ : SignParams}
    {old : Certificate} {c : X509} {caRef : String} (hplain : WithoutOverrides i)
    (hold : Issued w issuer p₀ old c)
    (hchosen : (Ca.renewalIssuer i old).Returns (Sem.under exec (steady P)) w (.ok caRef) w)
    (hrow : row ∈ refMatches w.ca.cas caRef)
    (hready : Ready s i w t row cert key p₀.profile old) (ht : P t = true)
    (hkept : NamesKept c.sans)
    (hcn : Go.trimSpace c.subject.commonName = c.subject.commonName)
    (hvalid : i.sameKey = true ∨ Renewable old c.subject) : ∃ r w',
      (s.renew old.id i).Returns (Sem.under exec (steady P)) w (.ok r) w' := by
  obtain ⟨request, res, v, r, hrequest, hissue, htables⟩ := returns_request hplain hold hrow hready
    ht hkept hcn hvalid
  obtain ⟨r, w', h, _⟩ := returns_renew_of_issue hready.time ht hold.row hold.pem hchosen hrequest
    hissue htables
  exact ⟨r, w', h⟩

end Steady

/-! ## Identity -/

/-- **Renewal keeps the identity** of a certificate, whatever goca signed it for, when its subject,
its names and its validity can be written and read again. Profile, usages and on request the key
are kept by every renewal. The issuer signs again while it can, and the default authority where it
cannot. Nothing else standing in the way, a renewal succeeds exactly when it keeps the key, or the
subject is accepted and the type of the key is a selectable one. -/
theorem renewal_identity {s : Ca.Service} {i : Ca.RenewInput} {issuer : CA} {p : SignParams}
    {old : Certificate} {c : X509} (hplain : WithoutOverrides i) (hold : Issued w issuer p old c) :
    (∀ r w', (s.renew old.id i).Returns exec w (.ok r) w' → ∃ c',
      r.certificate.certPEM = some c' ∧ Carried i old r.certificate c c' ∧
        (SameIdentity c c' ↔ IdentityKept s c)) ∧
    ((∀ ca ∈ w.ca.cas.rows, ca.slug = toString issuer.id ∨ ca.name = toString issuer.id →
        ca = issuer) → ∀ r w',
      (s.renew old.id i).Returns (Sem.under exec (steady (ableAt issuer))) w (.ok r) w' →
        r.certificate.caID = old.caID ∧ ∃ c', r.certificate.certPEM = some c' ∧
          c'.issuer = c.issuer ∧ c'.signedBy = c.signedBy) ∧
    (∀ r w', (s.renew old.id i).Returns (Sem.under exec fun e => !ableAt issuer e.now) w
        (.ok r) w' → ∃ d ∈ refMatches w.ca.cas "", r.certificate.caID = d.id) ∧
    ∀ t, Ready s i w t issuer p.issuer p.issuerKey p.profile old → NamesKept c.sans →
      Go.trimSpace c.subject.commonName = c.subject.commonName →
      ((∃ r w', (s.renew old.id i).Returns (Sem.under exec (steady (· == t))) w (.ok r) w') ↔
        i.sameKey = true ∨ Renewable old c.subject) := by
  have hmem := Sql.Table.mem_of_get? hold.authority
  have hid : issuer.id = old.caID := Sql.Table.key_of_get? hold.authority
  obtain ⟨t₀, ht₀⟩ := hold.signed
  refine ⟨?_, ?_, ?_, ?_⟩
  · intro r w' h
    obtain ⟨_, _, _, c', hrun⟩ := renew_renewal (q := fun _ => true) hplain hold h
    exact ⟨c', hrun.pem, hrun.carried, hrun.identity⟩
  · intro halone r w' h
    obtain ⟨caRef, row, p', c', hrun⟩ := renew_renewal hplain hold h
    obtain ⟨t, ht⟩ := hrun.signed
    have hresolved := hrun.resolved
    rw [chosen_of_able hplain.caRef hold.authority hrun.chosen] at hresolved
    obtain rfl := eq_of_refMatches hmem halone hresolved
    have hcert : p'.issuer = p.issuer :=
      Option.some.inj (hrun.certificate.symm.trans hold.certificate)
    have hkey : p'.issuerKey = p.issuerKey :=
      Option.some.inj (hrun.privateKey.symm.trans hold.privateKey)
    refine ⟨hrun.authority.trans hid, c', hrun.pem, ?_, ?_⟩
    · rw [(SignedAt.issuer ht).1, (SignedAt.issuer ht₀).1, hcert]
    · rw [(SignedAt.issuer ht).2, (SignedAt.issuer ht₀).2, hkey]
  · intro r w' h
    obtain ⟨caRef, row, p', c', hrun⟩ := renew_renewal hplain hold h
    have hunable (e : Env) (he : (!ableAt issuer e.now) = true) : ableAt issuer e.now = false := by
      rwa [Bool.not_eq_true'] at he
    have hresolved := hrun.resolved
    rw [chosen_of_unable hplain.caRef hold.authority hunable hrun.chosen] at hresolved
    exact ⟨row, hresolved, hrun.authority⟩
  · intro t hready hkept hcn
    constructor
    · rintro ⟨r, w', h⟩
      obtain ⟨_, _, _, _, hrun⟩ := renew_renewal hplain hold h
      by_cases hkey : i.sameKey = true
      · exact .inl hkey
      · have hfresh := Bool.not_eq_true _ ▸ hkey
        obtain ⟨kt, htyped⟩ := hrun.typed hfresh
        rw [keyType_of_renewal hplain.keyType hold.keyType, hold.keyType] at htyped
        refine .inr ⟨hrun.valid hfresh, ?_⟩
        rw [hold.keyType]
        exact parseKeyType_keyTypeOf.mp ⟨kt, htyped⟩
    · intro hvalid
      have ht : (t == t) = true := beq_self_eq_true t
      have hchosen := returns_renewalIssuer (P := (· == t)) (i := i) hready.time ht hplain.caRef
        hold.authority hready.able
      exact returns_renew hplain hold hchosen (mem_refMatches_self hmem) hready ht hkept hcn hvalid

end

section

attribute [local instance] Go.asciiRuntime

/-- An authority that is disabled. -/
def retired : CA := { Samples.root with status := .disabled, isDefault := false }

/-- The key of its successor. -/
def successorKey : PrivateKey := ⟨⟨3, .ecP256⟩⟩

/-- The certificate of its successor. -/
def successorCert : X509 := { Samples.rootCert with
  subject := { commonName := "Next" }
  issuer := { commonName := "Next" }
  publicKey := successorKey.publicKey
  signedBy := successorKey.publicKey }

/-- Its successor, the default authority. -/
def successor : CA := { Samples.root with
  id := 2
  name := "Next"
  slug := "next"
  subject := "CN=Next"
  certPEM := some successorCert
  keyEnc := some successorKey
  fingerprint := some successorCert }

/-- A subject of two units. -/
def unitsSubject : Name := { commonName := "ops", organizationalUnit := ["a", "b"] }

/-- A request for ninety days for that subject. -/
def unitsRequest : SignParams where
  csr := { subject := unitsSubject, sans := {}, publicKey := ⟨2, .ecP256⟩ }
  issuer := Samples.rootCert
  issuerKey := Samples.rootKey
  profile := .client
  days := 90
  sanOverride := none
  subjectOverride := none

/-- The certificate that is signed for it at time 100000. -/
def unitsCert : X509 where
  version := 3
  serialNumber := 5
  subject := unitsSubject
  issuer := { commonName := "Root" }
  notBefore := 99700
  notAfter := 7876000
  keyUsage := Profile.client.usages.1
  extKeyUsage := Profile.client.usages.2
  basicConstraintsValid := true
  isCA := false
  maxPathLen := -1
  maxPathLenZero := false
  sans := {}
  subjectKeyId := [2]
  authorityKeyId := [1]
  publicKey := ⟨2, .ecP256⟩
  signedBy := Samples.rootKey.publicKey
  digest := "05"

/-- Its row. -/
def unitsRow : Certificate := { Samples.leaf with
  serialHex := "05"
  commonName := "ops"
  subject := "CN=ops"
  sans := []
  profile := "client"
  certPEM := some unitsCert
  fingerprint := some unitsCert
  notBefore := 99700
  notAfter := 7876000 }

/-- A database with both authorities and that row. -/
def succession : World :=
  { Samples.installation retired [unitsRow] with
    ca := { (Samples.installation retired [unitsRow]).ca with
      cas := (Samples.installation retired [unitsRow]).ca.cas.insert
        (fun id => { successor with id }) (Samples.key_ca successor) } }

theorem unitsRow_issued : Issued succession retired unitsRequest unitsRow unitsCert where
  row := rfl
  authority := rfl
  certificate := rfl
  privateKey := rfl
  signed := ⟨100000, by decide, rfl, by decide +kernel, 5, "05", by decide +kernel⟩
  pathLen := rfl
  profile := rfl
  pem := rfl
  names := rfl
  keyType := rfl
  ownKey := fun _ h => nomatch h
  notBefore := rfl
  notAfter := rfl
  addresses := fun _ h => nomatch h

theorem not_subjectKept_units : ¬ SubjectKept unitsSubject := by
  intro h
  rcases h.organizationalUnit with hnil | ⟨v, hone, _⟩
  · cases hnil
  · cases hone

theorem plain_renewal : WithoutOverrides {} := ⟨le_refl 0, rfl, rfl⟩

/-- A renewal of the certificate with two units never has both. -/
theorem units_lost :
    ¬ ∃ r w' c', (Samples.replica.caSvc.renew unitsRow.id {}).Returns exec succession (.ok r) w' ∧
      r.certificate.certPEM = some c' ∧ SameIdentity unitsCert c' := by
  rintro ⟨r, w', c', h, hpem, hsame⟩
  obtain ⟨d, hd, _, hidentity⟩ := (renewal_identity plain_renewal unitsRow_issued).1 r w' h
  obtain rfl := Option.some.inj (hpem.symm.trans hd)
  exact not_subjectKept_units (hidentity.mp hsame).subject

/-- What a renewal under the successor needs is there at time 200000. -/
theorem successor_ready : Ready Samples.replica.caSvc {} succession 200000 successor successorCert
    successorKey .client unitsRow where
  time := by decide
  able := by decide
  certificate := rfl
  privateKey := rfl
  isCA := rfl
  own := rfl
  live := by decide
  permitted := fun h => nomatch h
  stored := fun h => nomatch h
  fits := by decide +kernel
  encodable := by decide +kernel
  serial := ⟨7, by decide, by decide, by decide⟩

theorem unitsCert_namesKept : NamesKept unitsCert.sans where
  dns := fun _ h => nomatch h
  emails := fun _ h => nomatch h
  whole := fun _ h => nomatch h
  uris := .refl _

theorem units_acceptable : Acceptable unitsSubject where
  commonName := by decide
  country := fun h => absurd rfl h

/-- The issuer is disabled, so the renewal is signed by the default authority, and one of the two
units is gone. -/
theorem renewed_by_successor : ∃ r w' c',
    Issued succession retired unitsRequest unitsRow unitsCert ∧
      (Samples.replica.caSvc.renew unitsRow.id {}).Returns exec succession (.ok r) w' ∧
      r.certificate.certPEM = some c' ∧ r.certificate.caID ≠ unitsRow.caID ∧
      c'.issuer ≠ unitsCert.issuer ∧ ¬ SameIdentity unitsCert c' := by
  have hat : ((200000 : Time) == 200000) = true := by decide
  have hdisabled : ∃ err, Ca.canIssue 200000 retired = .error err := ⟨_, rfl⟩
  obtain ⟨err, herr⟩ := hdisabled
  have hchosen : (Ca.renewalIssuer {} unitsRow).Returns (Sem.under exec (steady (· == 200000)))
      succession (.ok "") succession :=
    returns_renewalIssuer_default (by decide) hat rfl rfl herr
  have hdefault : refMatches succession.ca.cas "" = [successor] := by decide
  obtain ⟨r, w', h⟩ := returns_renew plain_renewal unitsRow_issued hchosen
    (hdefault ▸ List.mem_singleton_self successor) successor_ready hat unitsCert_namesKept rfl
    (.inr ⟨units_acceptable, by decide⟩)
  obtain ⟨caRef, row, p', c', hrun⟩ := renew_renewal plain_renewal unitsRow_issued h
  obtain ⟨t, ht⟩ := hrun.signed
  have hunable (e : Env) (he : steady (· == 200000) e = true) : ableAt retired e.now = false := by
    rw [beq_iff_eq.mp (steady_iff.mp he).2]
    decide
  have hresolved := hrun.resolved
  rw [chosen_of_unable rfl unitsRow_issued.authority hunable hrun.chosen, hdefault] at hresolved
  obtain rfl := List.mem_singleton.mp hresolved
  have hcert : successorCert = p'.issuer := Option.some.inj hrun.certificate
  refine ⟨r, w', c', unitsRow_issued, h.of_under, hrun.pem, ?_, ?_, ?_⟩
  · rw [hrun.authority]
    decide
  · rw [(SignedAt.issuer ht).1, ← hcert]
    decide
  · exact fun hsame => not_subjectKept_units (hrun.identity.mp hsame).subject

end

end Goca
