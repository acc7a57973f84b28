import Goca.Laws.AltNames
import Goca.Laws.Returned
import Goca.Laws.Samples

/-!
# A common name becomes an alternative name

A server certificate without alternative names is refused by every modern client, so `sign` gives it
its common name as one. The common name goes through the parser of lists of names: a host name, with
a wildcard or without, and an address come out of it as themselves and nothing else does harm to
them. Other profiles are signed without names, as they came.
-/

set_option autoImplicit false

namespace Goca.Pki

open Go (IP)
open Goca.Store (World exec)
open Interleave (Act Prog)

/-! ## Host names -/

/-- The runes of host names. -/
def hostRune (c : Char) : Bool := c.isAlphanum || c == '-' || c == '_' || c == '.'

/-- A host name: letters, digits, hyphens, underscores and dots, and no IPv4 address. -/
def IsHostName (t : String) : Prop :=
  t ≠ "" ∧ (∀ c ∈ t.toList, hostRune c = true) ∧ Go.parseIP t = none

/-- A host name behind a wildcard. -/
def IsWildcard (t : String) : Prop := ∃ rest, t = "*." ++ rest ∧ IsHostName rest

/-- The runes of host names with a wildcard. -/
def nameRune (c : Char) : Bool := hostRune c || c == '*'

theorem nameRune_lt {c : Char} (h : nameRune c = true) : c.toNat < 128 := by
  simp only [nameRune, hostRune, Bool.or_eq_true, beq_iff_eq] at h
  rcases h with (((h | rfl) | rfl) | rfl) | rfl
  · exact Go.lt_of_isAlphanum h
  · decide
  · decide
  · decide
  · decide

/-- What the runes of names and of addresses are not. -/
theorem rune_facts : (∀ n < 128, nameRune (Char.ofNat n) = true →
      (33 ≤ (Char.ofNat n).toNat ∧ (Char.ofNat n).toNat ≤ 126) ∧
        isSeparator (Char.ofNat n) = false ∧ (Char.ofNat n).toLower ≠ ':' ∧ Char.ofNat n ≠ '@') ∧
    ∀ n < 128, addressRune (Char.ofNat n) = true →
      (Char.ofNat n).toLower ∉ ['n', 'i', 'm', 'u'] := by
  decide +kernel

/-- A rune of names is visible, and neither a separator nor a mark of another type. -/
theorem nameRune_visible {c : Char} (h : nameRune c = true) :
    (33 ≤ c.toNat ∧ c.toNat ≤ 126) ∧ isSeparator c = false ∧ c.toLower ≠ ':' ∧ c ≠ '@' :=
  Go.ascii_induction (P := fun c => nameRune c = true →
    (33 ≤ c.toNat ∧ c.toNat ≤ 126) ∧ isSeparator c = false ∧ c.toLower ≠ ':' ∧ c ≠ '@')
    rune_facts.1 (nameRune_lt h) h

/-! ## Names that are not cut -/

/-- A plain text is one entry. -/
theorem splitList_plain {t : String} (h : Plain t) (hne : t ≠ "") : splitList [t] = [t] := by
  have htrim : Go.trimRunes Go.isSpace t.toList = t.toList := by
    have h := congrArg String.toList h.1
    unfold Go.trimSpace at h
    rwa [String.toList_ofList] at h
  rw [splitList_one, List.splitOnP_eq_singleton h.2, List.filterMap_cons, List.filterMap_nil]
  unfold entry
  rw [htrim, if_neg fun h => hne (String.toList_eq_nil_iff.mp h), String.ofList_toList]

section

variable [Go.Runtime]

/-- The runes of a prefix in lower case come from runes of the text. -/
theorem mem_of_hasPrefix_lower {t low : String} (h : Go.hasPrefix (Go.toLower t) low = true)
    {r : Char} (hr : r ∈ low.toList) : ∃ c ∈ t.toList, Go.lowerRune c = r := by
  unfold Go.hasPrefix Go.toLower at h
  rw [String.toList_ofList] at h
  exact List.mem_map.mp ((List.isPrefixOf_iff_prefix.mp h).subset hr)

theorem lowerRune_ascii {c : Char} (h : c.toNat < 128) : Go.lowerRune c = c.toLower := by
  unfold Go.lowerRune Go.isASCII
  rw [if_pos]
  exact decide_eq_true (UInt32.lt_iff_toNat_lt.mpr h)

/-- An address has the type of an address. -/
theorem addSAN_address {set : SANSet} {t : String} {ip : IP} (h : Go.parseIP t = some ip) :
    addSAN set t = .ok { set with ips := set.ips ++ [ip] } := by
  have hlower {low : String} {r : Char} (hr : r ∈ low.toList) (hrune : r ∈ ['n', 'i', 'm', 'u']) :
      Go.hasPrefix (Go.toLower t) low = false := by
    by_contra hprefix
    obtain ⟨c, hc, hcr⟩ := mem_of_hasPrefix_lower (Bool.not_eq_false _ ▸ hprefix) hr
    have haddress := rune_of_parseIP h hc
    have hlt := Nat.lt_of_le_of_lt (addressRune_visible haddress).2 (by decide : 126 < 128)
    rw [lowerRune_ascii hlt] at hcr
    refine Go.ascii_induction (P := fun c => addressRune c = true →
      c.toLower ∉ ['n', 'i', 'm', 'u']) rune_facts.2 hlt haddress ?_
    rw [hcr]
    exact hrune
  have hdns : Go.hasPrefix (Go.toLower t) "dns:" = false :=
    hlower (r := 'n') (by decide) (by decide)
  have hip : Go.hasPrefix (Go.toLower t) "ip:" = false :=
    hlower (r := 'i') (by decide) (by decide)
  have hemail : Go.hasPrefix (Go.toLower t) "email:" = false :=
    hlower (r := 'm') (by decide) (by decide)
  have huri : Go.hasPrefix (Go.toLower t) "uri:" = false :=
    hlower (r := 'u') (by decide) (by decide)
  unfold addSAN
  simp only [hdns, hip, hemail, huri, Bool.false_eq_true, if_false, h]

/-- A name of hosts has the type of a host. -/
theorem addSAN_name {set : SANSet} {t : String} (hname : ∀ c ∈ t.toList, nameRune c = true)
    (h : Go.parseIP t = none) : addSAN set t = .ok { set with dns := set.dns ++ [t] } := by
  have hlower {low : String} (hr : ':' ∈ low.toList) :
      Go.hasPrefix (Go.toLower t) low = false := by
    by_contra hprefix
    obtain ⟨c, hc, hcr⟩ := mem_of_hasPrefix_lower (Bool.not_eq_false _ ▸ hprefix) hr
    rw [lowerRune_ascii (nameRune_lt (hname c hc))] at hcr
    exact (nameRune_visible (hname c hc)).2.2.1 hcr
  have hdns : Go.hasPrefix (Go.toLower t) "dns:" = false := hlower (by decide)
  have hip : Go.hasPrefix (Go.toLower t) "ip:" = false := hlower (by decide)
  have hemail : Go.hasPrefix (Go.toLower t) "email:" = false := hlower (by decide)
  have huri : Go.hasPrefix (Go.toLower t) "uri:" = false := hlower (by decide)
  have hat : Go.contains t "@" = false := by
    by_contra hmark
    have hmem := mem_of_contains (Bool.not_eq_false _ ▸ hmark) (c := '@') (by decide)
    exact (nameRune_visible (hname _ hmem)).2.2.2 rfl
  have hscheme : Go.contains t "://" = false := by
    by_contra hmark
    have hmem := mem_of_contains (Bool.not_eq_false _ ▸ hmark) (c := ':') (by decide)
    exact (nameRune_visible (hname _ hmem)).2.2.1 (by decide)
  unfold addSAN
  simp only [hdns, hip, hemail, huri, hat, hscheme, Bool.false_eq_true, if_false, h]

/-- An address is read as an address. -/
theorem parseSANs_address {t : String} {ip : IP} (h : Go.parseIP t = some ip) :
    parseSANs [t] = .ok { ips := [ip] } := by
  have hplain := plain_of_address fun c hc => rune_of_parseIP h hc
  have hne : t ≠ "" := by
    rintro rfl
    cases h
  unfold parseSANs
  rw [splitList_plain hplain hne, List.foldlM_cons, addSAN_address h]
  rfl

/-- A name of hosts is read as one host. -/
theorem parseSANs_name {t : String} (hne : t ≠ "") (hname : ∀ c ∈ t.toList, nameRune c = true)
    (h : Go.parseIP t = none) : parseSANs [t] = .ok { dns := [t] } := by
  have hplain : Plain t := by
    refine ⟨Go.trimSpace_eq_self ?_, ?_⟩
    · exact fun c hc => Go.isSpace_of_visible (nameRune_visible (hname c hc)).1
    · exact fun c hc => (nameRune_visible (hname c hc)).2.1
  unfold parseSANs
  rw [splitList_plain hplain hne, List.foldlM_cons, addSAN_name hname h]
  rfl

/-- A host name or a wildcard is read as one host. -/
theorem parseSANs_host {t : String} (h : IsHostName t ∨ IsWildcard t) :
    parseSANs [t] = .ok { dns := [t] } := by
  have hrune {c : Char} (hc : hostRune c = true) : nameRune c = true := by
    unfold nameRune
    rw [hc]
    rfl
  rcases h with ⟨hne, hname, hip⟩ | ⟨rest, rfl, hne, hname, _⟩
  · exact parseSANs_name hne (fun c hc => hrune (hname c hc)) hip
  · have hstar : '*' ∈ ("*." ++ rest).toList := by
      rw [String.toList_append]
      exact List.mem_append_left _ (by decide)
    refine parseSANs_name (fun h => ?_) ?_ ?_
    · rw [h] at hstar
      exact absurd hstar (by decide)
    · intro c hc
      rw [String.toList_append] at hc
      rcases List.mem_append.mp hc with hc | hc
      · have hall : ['*', '.'].all nameRune = true := by decide
        exact List.all_eq_true.mp hall c hc
      · exact hrune (hname c hc)
    · cases hparse : Go.parseIP ("*." ++ rest) with
      | none => rfl
      | some ip => exact absurd (rune_of_parseIP hparse hstar) (by decide)

/-! ## The certificate that is signed -/

omit [Go.Runtime] in
theorem SANSet.eq_of_empty {s : SANSet} (h : s.empty = true) : s = {} := by
  unfold SANSet.empty at h
  simp only [Bool.and_eq_true, List.isEmpty_iff] at h
  obtain ⟨⟨⟨hdns, hips⟩, hemails⟩, huris⟩ := h
  cases s
  simp_all

/-- What stands in for the names of a request without any. -/
theorem sans_of_empty {p : SignParams} (hnone : (p.sanOverride.getD p.csr.sans).empty = true) :
    p.sans = if p.subject.commonName ≠ "" ∧ p.profile ∈ [Profile.server, .serverCli] then
      (parseSANs [p.subject.commonName]).toOption.getD {} else {} := by
  unfold SignParams.sans
  dsimp only
  rw [SANSet.eq_of_empty hnone]
  by_cases hcond : p.subject.commonName ≠ "" ∧ p.profile ∈ [Profile.server, .serverCli]
  · rw [if_pos ⟨rfl, hcond⟩, if_pos hcond]
    cases parseSANs [p.subject.commonName] <;> rfl
  · rw [if_neg fun h => hcond h.2, if_neg hcond]

/-- **Which names a certificate without names is signed with**: under a server profile its common
name, where that is a host or an address; none where there is no common name, and none under any
other profile. -/
theorem sign_promotes {p : SignParams} {w w' : World} {c : X509}
    (hnone : (p.sanOverride.getD p.csr.sans).empty = true)
    (h : (sign p).Returns exec w (.ok c) w') :
    (p.profile ∈ [Profile.server, .serverCli] →
      (∀ ip, Go.parseIP c.subject.commonName = some ip → c.sans = { ips := [ip] }) ∧
      (IsHostName c.subject.commonName ∨ IsWildcard c.subject.commonName →
        c.sans = { dns := [c.subject.commonName] })) ∧
    (p.profile ∉ [Profile.server, .serverCli] ∨ c.subject.commonName = "" → c.sans = {}) := by
  obtain ⟨⟨t, hsigned⟩, -⟩ := sign_returns h
  obtain ⟨serial, digest, hc⟩ := hsigned.signature
  obtain ⟨-, hsubject, -, -, -, -, hsans, -⟩ := x509CreateCertificate_ok hc
  rw [template_subject] at hsubject
  rw [template_sans, sans_of_empty hnone, ← hsubject] at hsans
  refine ⟨fun hserver => ⟨?_, ?_⟩, ?_⟩
  · intro ip hip
    have hne : c.subject.commonName ≠ "" := by
      intro h
      rw [h] at hip
      cases hip
    rw [hsans, if_pos ⟨hne, hserver⟩, parseSANs_address hip]
    rfl
  · intro hhost
    have hne : c.subject.commonName ≠ "" := by
      rcases hhost with ⟨hne, _⟩ | ⟨rest, hrest, _⟩
      · exact hne
      · intro h
        rw [h] at hrest
        have := congrArg String.toList hrest
        rw [String.toList_append] at this
        cases this
    rw [hsans, if_pos ⟨hne, hserver⟩, parseSANs_host hhost]
    rfl
  · rintro (hprofile | hcn)
    · rw [hsans, if_neg fun h => hprofile h.2]
    · rw [hsans, if_neg fun h => h.1 hcn]

end

/-! ## A host under two profiles -/

section

attribute [local instance] Go.asciiRuntime

/-- A request without names for `host.internal`, under a profile. -/
def hostRequest (profile : Profile) : SignParams where
  csr := { subject := { commonName := "host.internal" }, sans := {}, publicKey := ⟨2, .ecP256⟩ }
  issuer := Samples.rootCert
  issuerKey := Samples.rootKey
  profile := profile
  days := 90
  sanOverride := none
  subjectOverride := none

/-- The certificate that is signed for it. -/
def hostCert (profile : Profile) : X509 where
  version := 3
  serialNumber := 5
  subject := { commonName := "host.internal" }
  issuer := { commonName := "Root" }
  notBefore := 100
  notAfter := 400 + 90 * 86400
  keyUsage := profile.usages.1
  extKeyUsage := profile.usages.2
  basicConstraintsValid := true
  isCA := false
  maxPathLen := -1
  maxPathLenZero := false
  sans := (hostRequest profile).sans
  subjectKeyId := [2]
  authorityKeyId := [1]
  publicKey := ⟨2, .ecP256⟩
  signedBy := Samples.rootKey.publicKey
  digest := "05"

/-- What is computed of the host: its runes, and its certificates. -/
theorem host_facts : ("host.internal".toList.all hostRune = true ∧
      Go.parseIP "host.internal" = none) ∧
    ∀ profile ∈ [Profile.server, Profile.client],
      x509CreateCertificate ((hostRequest profile).template 5 400
        ((400 : Go.Time).addDays (hostRequest profile).lifetime)) (some Samples.rootCert)
        (hostRequest profile).csr.publicKey Samples.rootKey "05" = .ok (hostCert profile) := by
  decide +kernel

theorem returns_hostCert {profile : Profile} (h : profile = .server ∨ profile = .client) :
    (sign (hostRequest profile)).Returns exec (World.empty .empty) (.ok (hostCert profile))
      (World.empty .empty) := by
  have hcert := host_facts.2 profile (by simpa using h)
  rcases h with rfl | rfl
  · exact returns_sign 400 5 "05" (by decide) rfl (by decide) (by decide) (by decide) hcert
  · exact returns_sign 400 5 "05" (by decide) rfl (by decide) (by decide) (by decide) hcert

theorem host_isHostName : IsHostName "host.internal" :=
  ⟨by decide, fun c hc => List.all_eq_true.mp host_facts.1.1 c hc, host_facts.1.2⟩

/-- Under the server profile the host becomes a name. -/
theorem server_promoted : (hostCert .server).sans = { dns := ["host.internal"] } :=
  ((sign_promotes (p := hostRequest .server) rfl (returns_hostCert (.inl rfl))).1
    List.mem_cons_self).2 (.inl host_isHostName)

/-- Under the client profile it does not. -/
theorem client_not_promoted :
    ((hostRequest .client).sanOverride.getD (hostRequest .client).csr.sans).empty = true ∧
      IsHostName (hostCert .client).subject.commonName ∧
      (sign (hostRequest .client)).Returns exec (World.empty .empty) (.ok (hostCert .client))
        (World.empty .empty) ∧
      (hostCert .client).sans ≠ { dns := [(hostCert .client).subject.commonName] } :=
  ⟨rfl, host_isHostName, returns_hostCert (.inr rfl), by decide⟩

end

end Goca.Pki
