import Goca.Laws.Wildcard

/-!
# The allowed domains of a credential

`normalizeDomainPatterns` refuses a pattern that is made of stars, question marks and dots. A
pattern whose one character class covers what an identifier must end or begin with, or contain,
allows everything just the same. It cuts one dot off the end of a pattern, and no blank before it,
so a list that is fed back in may change.

- `allowsAll_iff`: the patterns that match every identifier.
- `normalize_eq_ok_iff`: what a list is normalized to.
- `normalizeDomainPatterns_iff`: for which lists the result is safe and stable.
-/

set_option autoImplicit false

namespace Goca.Acme

open Go (Reads)

/-! ## What identifiers are made of -/

/-- A lower-case letter or a digit. -/
def plainRune (c : Char) : Bool := ('a' ≤ c && c ≤ 'z') || ('0' ≤ c && c ≤ '9')

theorem labelRune_iff_plain {c : Char} : labelRune c = true ↔ plainRune c = true ∨ c = '-' := by
  simp only [labelRune, plainRune, Bool.or_eq_true, beq_iff_eq]

/-- The labels of an accepted identifier are accepted. -/
theorem validDNSIdentifier_labels {v : String} (h : validDNSIdentifier v = .ok ()) :
    ∃ name, (v = name ∨ v = "*." ++ name) ∧ validLabels (Go.split name '.') = .ok () := by
  refine ⟨(Go.cutPrefix v "*.").getD v, ?_, ?_⟩
  · cases hcut : Go.cutPrefix v "*." with
    | none => exact .inl rfl
    | some d => exact .inr (Go.eq_of_cutPrefix hcut)
  · unfold validDNSIdentifier at h
    dsimp only at h
    split at h
    next => cases h
    next =>
      split at h
      next => cases h
      next =>
        split at h
        next => cases h
        next =>
          split at h
          next => cases h
          next => exact h

/-- A label begins and ends with a letter or a digit. -/
theorem plain_ends {l : String} (h : validLabel l = .ok ()) :
    (∃ c, l.toList.head? = some c ∧ plainRune c = true) ∧
      ∃ c, l.toList.getLast? = some c ∧ plainRune c = true := by
  obtain ⟨hne, _, hends, hrunes⟩ := validLabel_iff.mp h
  obtain ⟨hfirst, hlast⟩ := not_or.mp hends
  have hplain {c : Char} (hc : c ∈ l.toList) (hdash : c ≠ '-') : plainRune c = true :=
    (labelRune_iff_plain.mp (hrunes c hc)).resolve_right hdash
  have hlist : l.toList ≠ [] := fun hnil => hne (String.toList_eq_nil_iff.mp hnil)
  constructor
  · refine ⟨l.toList.head hlist, List.head?_eq_some_head hlist, ?_⟩
    refine hplain (List.head_mem hlist) fun hdash => hfirst ?_
    rw [List.head?_eq_some_head hlist, hdash]
  · refine ⟨l.toList.getLast hlist, List.getLast?_eq_some_getLast hlist, ?_⟩
    refine hplain (List.getLast_mem hlist) fun hdash => hlast ?_
    rw [List.getLast?_eq_some_getLast hlist, hdash]

/-- The first and the last rune of joined texts. -/
theorem ends_intercalate {labels : List (List Char)} (hne : labels ≠ []) (hall : [] ∉ labels) :
    (∃ l ∈ labels, (['.'].intercalate labels).head? = l.head?) ∧
      ∃ l ∈ labels, (['.'].intercalate labels).getLast? = l.getLast? := by
  induction labels with
  | nil => exact absurd rfl hne
  | cons l labels ih =>
    have hl : l ≠ [] := fun hnil => hall (hnil ▸ List.mem_cons_self)
    cases labels with
    | nil =>
      rw [List.intercalate_singleton]
      exact ⟨⟨l, List.mem_cons_self, rfl⟩, l, List.mem_cons_self, rfl⟩
    | cons m labels =>
      obtain ⟨_, m', hm', hlast⟩ := ih (List.cons_ne_nil _ _)
        fun hmem => hall (List.mem_cons_of_mem l hmem)
      have hm'ne : m' ≠ [] := fun hnil => hall (List.mem_cons_of_mem l (hnil ▸ hm'))
      rw [List.intercalate_cons_cons]
      refine ⟨⟨l, List.mem_cons_self, ?_⟩, m', List.mem_cons_of_mem l hm', ?_⟩
      · rw [List.append_assoc, List.head?_append_of_ne_nil _ hl]
      · rw [List.getLast?_append, hlast, List.getLast?_eq_some_getLast hm'ne, Option.some_or]

/-- **The ends of an accepted identifier**: a letter or a digit, but for the star of a wildcard at
the beginning. -/
theorem ends_of_valid {v : String} (h : validDNSIdentifier v = .ok ()) :
    (∃ c, v.toList.head? = some c ∧ (plainRune c = true ∨ c = '*')) ∧
      ∃ c, v.toList.getLast? = some c ∧ plainRune c = true := by
  obtain ⟨name, hv, hlabels⟩ := validDNSIdentifier_labels h
  have hlabel : ∀ l ∈ name.toList.splitOn '.', validLabel (.ofList l) = .ok () := fun l hl =>
    validLabels_iff.mp hlabels _ (List.mem_map_of_mem hl)
  have hnil : [] ∉ name.toList.splitOn '.' := fun hmem => (validLabel_ok (hlabel [] hmem)).1 rfl
  obtain ⟨⟨l, hl, hhead⟩, m, hm, hlast⟩ := ends_intercalate (List.splitOn_ne_nil _ _) hnil
  rw [List.intercalate_splitOn] at hhead hlast
  obtain ⟨c, hc, hfirst⟩ := (plain_ends (hlabel l hl)).1
  obtain ⟨d, hd, hplain⟩ := (plain_ends (hlabel m hm)).2
  rw [String.toList_ofList] at hc hd
  rw [hc] at hhead
  rw [hd] at hlast
  rcases hv with rfl | rfl
  · exact ⟨⟨c, hhead, .inl hfirst⟩, d, hlast, hplain⟩
  · rw [String.toList_append]
    refine ⟨⟨'*', rfl, .inr rfl⟩, d, ?_, hplain⟩
    rw [List.getLast?_append, hlast, Option.some_or]

/-- The runes of an accepted identifier. -/
theorem runes_of_valid {v : String} (h : validDNSIdentifier v = .ok ()) :
    ∀ c ∈ v.toList, labelRune c = true ∨ c = '.' ∨ c = '*' := by
  obtain ⟨name, hv, hlabels⟩ := validDNSIdentifier_labels h
  have hname : ∀ c ∈ name.toList, labelRune c = true ∨ c = '.' := by
    intro c hc
    rw [← join_split name] at hc
    rcases Pki.mem_intercalate hc with hdot | ⟨l, hl, hc⟩
    · exact .inr hdot
    · refine .inl ((validLabel_ok (validLabels_iff.mp hlabels _ (List.mem_map_of_mem hl))).2 c ?_)
      rwa [String.toList_ofList]
  intro c hc
  rcases hv with rfl | rfl
  · exact (hname c hc).imp_right .inl
  · rw [String.toList_append] at hc
    rcases List.mem_append.mp hc with hc | hc
    · have hstar : c = '*' ∨ c = '.' := by simpa using hc
      exact .inr hstar.symm
    · exact (hname c hc).imp_right .inl

theorem no_slash_of_valid {v : String} (h : validDNSIdentifier v = .ok ()) : '/' ∉ v.toList := by
  intro hslash
  rcases runes_of_valid h '/' hslash with h | h | h
  · exact absurd h (by decide)
  · exact absurd h (by decide)
  · exact absurd h (by decide)

/-- The policy sees an accepted identifier as it is. -/
theorem matchedName_of_valid [Go.Runtime] {v : String} (h : validDNSIdentifier v = .ok ()) :
    matchedName v = v := by
  have htrim : Go.trimSuffix v "." = v := by
    obtain ⟨c, hlast, hplain⟩ := (ends_of_valid h).2
    rw [Go.trimSuffix, if_neg]
    rw [Go.hasSuffix, List.isSuffixOf_iff_suffix]
    rintro ⟨before, hbefore⟩
    have hdot : v.toList.getLast? = some '.' := by
      rw [← hbefore]
      exact List.getLast?_concat
    obtain rfl := Option.some.inj (hlast.symm.trans hdot)
    exact absurd hplain (by decide)
  have hmap : v.toList.map Go.lowerRune = v.toList := by
    conv_rhs => rw [← List.map_id v.toList]
    apply List.map_congr_left
    intro c hc
    rcases runes_of_valid h c hc with hc | rfl | rfl
    · exact (lowerRune_labelRune (.inl hc)).1
    · rfl
    · rfl
  rw [matchedName, htrim, Go.toLower, hmap, String.ofList_toList]

/-! ## Patterns that allow everything -/

/-- A pattern that allows everything: a star, or one condition that every letter and digit meets,
before which a star stands; or after which one does, if the star of a wildcard meets it too. -/
def CatchAll (p : Glob.Pattern Char) : Prop :=
  p = [(true, [])] ∨ ∃ f : Char → Bool, (∀ c, plainRune c = true → f c = true) ∧
    (p = [(true, [f])] ∨ p = [(true, [f]), (true, [])] ∨
      (p = [(false, [f]), (true, [])] ∧ f '*' = true))

/-- The identifiers of one rune, one of two, and a wildcard. -/
def probes : List String :=
  "*.a.a" :: "aa" :: "abcdefghijklmnopqrstuvwxyz0123456789".toList.map .singleton

/-- What is computed of ASCII: the probes are valid and have every plain rune, and lower case
changes nothing twice. -/
theorem ascii_facts : (∀ v ∈ probes, validDNSIdentifier v = .ok ()) ∧
    (∀ n < 128, plainRune (Char.ofNat n) = true → String.singleton (Char.ofNat n) ∈ probes) ∧
    ∀ n < 128, (Char.ofNat n).toLower.toLower = (Char.ofNat n).toLower ∧
      Go.isASCII (Char.ofNat n).toLower = true ∧
      Go.isSpace (Char.ofNat n).toLower = Go.isSpace (Char.ofNat n) ∧
      ((Char.ofNat n).toLower = '.' ↔ Char.ofNat n = '.') := by
  decide +kernel

theorem valid_of_probes : ∀ v ∈ probes, validDNSIdentifier v = .ok () := ascii_facts.1

theorem single_mem_probes {c : Char} (h : plainRune c = true) : String.singleton c ∈ probes := by
  have hc : c.toNat < 128 := by
    simp only [plainRune, Bool.or_eq_true, Bool.and_eq_true, decide_eq_true_eq, Char.le_def,
      UInt32.le_iff_toNat_le] at h
    rcases h with h | h
    · exact Nat.lt_of_le_of_lt h.2 (by decide)
    · exact Nat.lt_of_le_of_lt h.2 (by decide)
  exact Go.ascii_induction (P := fun c => plainRune c = true → String.singleton c ∈ probes)
    ascii_facts.2.1 hc h

/-- A pattern that matches the probes has one condition at most, and it meets it. -/
theorem catchAll_of_probes {p : Glob.Pattern Char} (hp : Glob.Tidy p) (hstar : Glob.Starred p.tail)
    (h : ∀ v ∈ probes, Glob.Matches p v.toList) : CatchAll p := by
  have hsingle {c : Char} (hc : plainRune c = true) : Glob.Matches p [c] := by
    have hv := h _ (single_mem_probes hc)
    rwa [String.toList_singleton] at hv
  have hpair : Glob.Matches p ['a', 'a'] := h "aa" (by decide)
  have hwild : Glob.Matches p "*.a.a".toList := h "*.a.a" (by decide)
  have hlen : (Glob.conditions p).length ≤ 1 := (hsingle (c := 'a') (by decide)).length_le
  rcases Glob.shape_of_conditions hp hstar hlen with rfl | rfl | ⟨star, f, rfl | rfl⟩
  · cases hpair
  · exact .inl rfl
  · cases star with
    | false =>
      obtain ⟨c, hc, _⟩ := Glob.matches_one_iff.mp hpair
      cases hc
    | true =>
      refine .inr ⟨f, fun c hc => ?_, .inl rfl⟩
      obtain ⟨d, hd, hf⟩ := Glob.matches_last_iff.mp (hsingle hc)
      cases hd
      exact hf
  · cases star with
    | false =>
      refine .inr ⟨f, fun c hc => ?_, .inr (.inr ⟨rfl, ?_⟩)⟩
      · obtain ⟨d, hd, hf⟩ := Glob.matches_first_iff.mp (hsingle hc)
        cases hd
        exact hf
      · obtain ⟨d, hd, hf⟩ := Glob.matches_first_iff.mp hwild
        have hhead : "*.a.a".toList.head? = some '*' := rfl
        obtain rfl := Option.some.inj (hhead.symm.trans hd)
        exact hf
    | true =>
      refine .inr ⟨f, fun c hc => ?_, .inr (.inl rfl)⟩
      obtain ⟨d, hd, hf⟩ := Glob.matches_mem_iff.mp (hsingle hc)
      rwa [List.mem_singleton.mp hd] at hf

/-- A pattern that allows everything matches every identifier. -/
theorem CatchAll.matches {p : Glob.Pattern Char} (h : CatchAll p) {v : String}
    (hv : validDNSIdentifier v = .ok ()) : Glob.Matches p v.toList := by
  obtain ⟨c, hlast, hplain⟩ := (ends_of_valid hv).2
  rcases h with rfl | ⟨f, hf, rfl | rfl | ⟨rfl, hwild⟩⟩
  · exact Glob.matches_star _
  · exact Glob.matches_last_iff.mpr ⟨c, hlast, hf c hplain⟩
  · exact Glob.matches_mem_iff.mpr ⟨c, List.mem_of_getLast? hlast, hf c hplain⟩
  · obtain ⟨d, hhead, hfirst | rfl⟩ := (ends_of_valid hv).1
    · exact Glob.matches_first_iff.mpr ⟨d, hhead, hf d hfirst⟩
    · exact Glob.matches_first_iff.mpr ⟨'*', hhead, hwild⟩

/-- A pattern whose text allows everything. -/
def AllowsAll (pat : String) : Prop := ∃ p, Reads pat.toList p ∧ CatchAll p

/-- **What a text allows**: everything exactly when it matches the probes. -/
theorem allowsAll_iff_probes {pat : String} :
    AllowsAll pat ↔ ∀ v ∈ probes, Go.pathMatch pat v = .ok true := by
  constructor
  · rintro ⟨p, hp, hall⟩ v hv
    have hvalid := valid_of_probes v hv
    exact (hp.pathMatch_iff (no_slash_of_valid hvalid)).mpr (hall.matches hvalid)
  · intro h
    have ha : "aa" ∈ probes := by decide
    obtain ⟨p, hp, _⟩ := (Go.pathMatch_iff (no_slash_of_valid (valid_of_probes _ ha))).mp (h _ ha)
    refine ⟨p, hp, catchAll_of_probes hp.tidy hp.tail_starred fun v hv => ?_⟩
    exact (hp.pathMatch_iff (no_slash_of_valid (valid_of_probes v hv))).mp (h v hv)

/-- A pattern that allows everything matches every identifier, and the other way about. -/
theorem allowsAll_iff {pat : String} :
    (∀ v, validDNSIdentifier v = .ok () → Go.pathMatch pat v = .ok true) ↔ AllowsAll pat := by
  constructor
  · intro h
    exact allowsAll_iff_probes.mpr fun v hv => h v (valid_of_probes v hv)
  · rintro ⟨p, hp, hall⟩ v hv
    exact (hp.pathMatch_iff (no_slash_of_valid hv)).mpr (hall.matches hv)

/-! ## Clean texts -/

section

variable [Go.Runtime]

/-- What `unicode.ToLower` does outside ASCII: a lower-case rune stays, a blank stays one and
nothing else becomes one, and nothing becomes a dot. -/
structure LowerLaws : Prop where
  idem : ∀ c, Go.isASCII c = false →
    Go.lowerRune (Go.Runtime.lowerRune c) = Go.Runtime.lowerRune c
  space : ∀ c, Go.isASCII c = false → Go.isSpace (Go.Runtime.lowerRune c) = Go.isSpace c
  dot : ∀ c, Go.isASCII c = false → Go.Runtime.lowerRune c ≠ '.'

/-- The laws hold of every rune. -/
theorem LowerLaws.rune (h : LowerLaws) (c : Char) :
    Go.lowerRune (Go.lowerRune c) = Go.lowerRune c ∧
      Go.isSpace (Go.lowerRune c) = Go.isSpace c ∧ (Go.lowerRune c = '.' ↔ c = '.') := by
  by_cases hc : Go.isASCII c = true
  · obtain ⟨hidem, hlow, hspace, hdot⟩ := Go.ascii_induction
      (P := fun c => c.toLower.toLower = c.toLower ∧ Go.isASCII c.toLower = true ∧
        Go.isSpace c.toLower = Go.isSpace c ∧ (c.toLower = '.' ↔ c = '.')) ascii_facts.2.2
      (Go.isASCII_iff.mp hc)
    have hrune : Go.lowerRune c = c.toLower := if_pos hc
    rw [hrune]
    exact ⟨(if_pos hlow).trans hidem, hspace, hdot⟩
  · have hrune : Go.lowerRune c = Go.Runtime.lowerRune c := if_neg hc
    rw [Bool.not_eq_true] at hc
    rw [hrune]
    refine ⟨h.idem c hc, h.space c hc, fun hdot => absurd hdot (h.dot c hc), ?_⟩
    rintro rfl
    cases hc

/-- What `normalizeDomainPatterns` makes of a text. -/
def cleaned (raw : String) : String := Go.toLower (Go.trimSuffix (Go.trimSpace raw) ".")

/-- A text that is cleaned at once: behind the blanks at its ends it does not end with a dot after
another dot or a blank. -/
def Settled (raw : String) : Prop :=
  ∀ before c, (Go.trimSpace raw).toList = before ++ [c, '.'] → Go.isSpace c = false ∧ c ≠ '.'

omit [Go.Runtime] in
theorem toList_trimDot (s : String) : (Go.trimSuffix s ".").toList =
    if ['.'] <:+ s.toList then s.toList.dropLast else s.toList := by
  have hsuffix : Go.hasSuffix s "." = true ↔ ['.'] <:+ s.toList := List.isSuffixOf_iff_suffix
  unfold Go.trimSuffix
  by_cases hdot : ['.'] <:+ s.toList
  · rw [if_pos hdot, if_pos (hsuffix.mpr hdot), String.toList_ofList, List.dropLast_eq_take]
    rfl
  · rw [if_neg hdot, if_neg fun h => hdot (hsuffix.mp h)]

/-- A text is cleaned in the order in which the code does it. -/
theorem toList_cleaned (raw : String) : (cleaned raw).toList =
    (if ['.'] <:+ Go.trimRunes Go.isSpace raw.toList then
      (Go.trimRunes Go.isSpace raw.toList).dropLast
    else Go.trimRunes Go.isSpace raw.toList).map Go.lowerRune := by
  unfold cleaned Go.toLower
  rw [String.toList_ofList, toList_trimDot, Go.trimSpace, String.toList_ofList]

theorem length_cleaned_le (p : String) :
    (cleaned p).toList.length ≤ (Go.trimRunes Go.isSpace p.toList).length := by
  rw [toList_cleaned, List.length_map]
  split
  · rw [List.length_dropLast]
    exact Nat.sub_le _ _
  · exact Nat.le_refl _

/-- A text that ends with a blank or a dot does not stay as it is. -/
theorem cleaned_ne {p : String} {c : Char} (hlast : p.toList.getLast? = some c)
    (hc : Go.isSpace c = true ∨ c = '.') : cleaned p ≠ p := by
  intro h
  have hlen := length_cleaned_le p
  rw [h] at hlen
  have htrim : Go.trimRunes Go.isSpace p.toList = p.toList :=
    (Go.trimRunes_sublist _ _).eq_of_length_le hlen
  rcases hc with hblank | rfl
  · have hnot := Go.last_of_trimmed htrim c hlast
    rw [hblank] at hnot
    cases hnot
  · have hdot : ['.'] <:+ p.toList := by
      obtain ⟨before, hbefore⟩ := List.getLast?_eq_some_iff.mp hlast
      exact ⟨before, hbefore.symm⟩
    have hshort := congrArg List.length (toList_cleaned p)
    rw [h, htrim, if_pos hdot, List.length_map, List.length_dropLast] at hshort
    have hpos : 0 < p.toList.length := List.length_pos_of_mem (List.mem_of_getLast? hlast)
    omega

/-- A text whose ends are neither blank nor a dot, in lower case, stays as it is. -/
theorem cleaned_eq {p : String} (hhead : ∀ c ∈ p.toList.head?, Go.isSpace c = false)
    (hlast : ∀ c ∈ p.toList.getLast?, Go.isSpace c = false ∧ c ≠ '.')
    (hlower : ∀ c ∈ p.toList, Go.lowerRune c = c) : cleaned p = p := by
  have htrim : Go.trimRunes Go.isSpace p.toList = p.toList :=
    Go.trimRunes_eq_self hhead fun c hc => (hlast c hc).1
  have hmap : p.toList.map Go.lowerRune = p.toList := by
    conv_rhs => rw [← List.map_id p.toList]
    exact List.map_congr_left hlower
  have hdot : ¬ ['.'] <:+ p.toList := by
    rintro ⟨before, hbefore⟩
    refine (hlast '.' ?_).2 rfl
    rw [← hbefore]
    exact List.getLast?_concat
  apply String.toList_injective
  rw [toList_cleaned, htrim, if_neg hdot, hmap]

/-- A text that stays as it is is matched as it is. -/
theorem matchedPattern_of_cleaned {p : String} (h : cleaned p = p) : matchedPattern p = p := by
  have hlen := length_cleaned_le p
  rw [h] at hlen
  have htrim : Go.trimRunes Go.isSpace p.toList = p.toList :=
    (Go.trimRunes_sublist _ _).eq_of_length_le hlen
  have hdot : ¬ ['.'] <:+ p.toList := by
    rintro ⟨before, hbefore⟩
    refine cleaned_ne (c := '.') ?_ (.inr rfl) h
    rw [← hbefore]
    exact List.getLast?_concat
  have hlist := toList_cleaned p
  rw [h, htrim, if_neg hdot] at hlist
  unfold matchedPattern Go.toLower Go.trimSpace
  rw [String.toList_ofList, htrim, ← hlist, String.ofList_toList]

/-- **Cleaning settles a text** exactly when it does not end with a dot after another dot or a
blank. -/
theorem cleaned_cleaned_iff (hlaws : LowerLaws) {raw : String} :
    cleaned (cleaned raw) = cleaned raw ↔ Settled raw := by
  have ht : Go.trimRunes Go.isSpace (Go.trimRunes Go.isSpace raw.toList) =
      Go.trimRunes Go.isSpace raw.toList := Go.trimRunes_trimRunes _ _
  have hraw := toList_cleaned raw
  have hfirst := Go.head_of_trimmed ht
  have hend := Go.last_of_trimmed ht
  unfold Settled
  have hspace : (Go.trimSpace raw).toList = Go.trimRunes Go.isSpace raw.toList :=
    String.toList_ofList
  rw [hspace]
  generalize Go.trimRunes Go.isSpace raw.toList = t at hraw hfirst hend
  -- a cleaned text is the lower case of the runes `u`
  have hclean {u : List Char} (hu : (cleaned raw).toList = u.map Go.lowerRune)
      (hhead : ∀ c ∈ u.head?, Go.isSpace c = false)
      (hlast : ∀ c ∈ u.getLast?, Go.isSpace c = false ∧ c ≠ '.') :
      cleaned (cleaned raw) = cleaned raw := by
    refine cleaned_eq ?_ ?_ ?_
    · intro c hc
      rw [hu, List.head?_map, Option.mem_def, Option.map_eq_some_iff] at hc
      obtain ⟨d, hd, rfl⟩ := hc
      rw [(hlaws.rune d).2.1]
      exact hhead d hd
    · intro c hc
      rw [hu, List.getLast?_map, Option.mem_def, Option.map_eq_some_iff] at hc
      obtain ⟨d, hd, rfl⟩ := hc
      rw [(hlaws.rune d).2.1, Ne, (hlaws.rune d).2.2]
      exact hlast d hd
    · intro c hc
      rw [hu] at hc
      obtain ⟨d, _, rfl⟩ := List.mem_map.mp hc
      exact (hlaws.rune d).1
  by_cases hdot : ['.'] <:+ t
  · obtain ⟨u, rfl⟩ := hdot
    rw [if_pos ⟨u, rfl⟩, List.dropLast_concat] at hraw
    rcases List.eq_nil_or_concat u with rfl | ⟨before, c, rfl⟩
    · constructor
      · intro _ before c hsplit
        have hlen := congrArg List.length hsplit
        simp at hlen
      · intro _
        refine hclean hraw ?_ ?_
        · intro c hc
          cases hc
        · intro c hc
          cases hc
    · rw [List.concat_eq_append] at hraw hfirst ⊢
      have hlast : (before ++ [c]).getLast? = some c := List.getLast?_concat
      constructor
      · intro h before' c' hsplit
        rw [List.append_assoc] at hsplit
        obtain ⟨_, hcons⟩ := List.append_inj' hsplit rfl
        obtain rfl : c = c' := (List.cons.inj hcons).1
        by_contra hbad
        have hmapped : (cleaned raw).toList.getLast? = some (Go.lowerRune c) := by
          rw [hraw, List.getLast?_map, hlast]
          rfl
        refine cleaned_ne hmapped ?_ h
        rw [(hlaws.rune c).2.1, (hlaws.rune c).2.2]
        by_contra hnot
        obtain ⟨hblank, hne⟩ := not_or.mp hnot
        exact hbad ⟨Bool.eq_false_iff.mpr hblank, hne⟩
      · intro hsettled
        have hc := hsettled before c (List.append_assoc ..)
        refine hclean hraw ?_ ?_
        · intro d hd
          refine hfirst d ?_
          obtain ⟨rest, hrest⟩ := List.head?_eq_some_iff.mp hd
          rw [hrest]
          rfl
        · intro d hd
          rw [hlast] at hd
          obtain rfl := Option.some.inj hd
          exact hc
  · rw [if_neg hdot] at hraw
    constructor
    · intro _ before c hsplit
      exact absurd ⟨before ++ [c], by rw [hsplit, List.append_assoc]; rfl⟩ hdot
    · intro _
      refine hclean hraw hfirst fun c hc => ⟨hend c hc, ?_⟩
      rintro rfl
      obtain ⟨before, hbefore⟩ := List.getLast?_eq_some_iff.mp hc
      exact hdot ⟨before, hbefore.symm⟩

/-! ## What a list is normalized to -/

/-- The patterns that are kept of a list, behind those that were kept before. -/
inductive Keeps : List String → List String → List String → Prop
  | nil (out : List String) : Keeps out [] []
  | skip {out rest kept : List String} {raw : String} :
      cleaned raw = "" ∨ cleaned raw ∈ out → Keeps out rest kept → Keeps out (raw :: rest) kept
  | keep {out rest kept : List String} {raw : String} {b : Bool} :
      ¬ (cleaned raw = "" ∨ cleaned raw ∈ out) → Go.pathMatch (cleaned raw) "" = .ok b →
      Go.trim (cleaned raw) "*?." ≠ "" → Keeps (out ++ [cleaned raw]) rest kept →
      Keeps out (raw :: rest) (cleaned raw :: kept)

section Loop

-- A step of the loop is read off without folding the text that it compares.
attribute [local irreducible] Go.toLower

theorem normalizeFrom_skip {out rest : List String} {raw : String}
    (h : cleaned raw = "" ∨ cleaned raw ∈ out) :
    normalizeDomainPatternsFrom out (raw :: rest) = normalizeDomainPatternsFrom out rest :=
  if_pos h

theorem normalizeFrom_malformed {out : List String} (rest : List String) {raw : String}
    {e : Go.BadPattern}
    (h : ¬ (cleaned raw = "" ∨ cleaned raw ∈ out))
    (hmatch : Go.pathMatch (cleaned raw) "" = .error e) :
    ∃ err, normalizeDomainPatternsFrom out (raw :: rest) = .error err := by
  have hstep : normalizeDomainPatternsFrom out (raw :: rest) = _ := if_neg h
  unfold cleaned at hmatch
  cases e
  rw [hmatch] at hstep
  exact ⟨_, hstep⟩

theorem normalizeFrom_refused {out : List String} (rest : List String) {raw : String} {b : Bool}
    (h : ¬ (cleaned raw = "" ∨ cleaned raw ∈ out))
    (hmatch : Go.pathMatch (cleaned raw) "" = .ok b) (htrim : Go.trim (cleaned raw) "*?." = "") :
    ∃ err, normalizeDomainPatternsFrom out (raw :: rest) = .error err := by
  have hstep : normalizeDomainPatternsFrom out (raw :: rest) = _ := if_neg h
  unfold cleaned at hmatch
  rw [hmatch] at hstep
  exact ⟨_, hstep.trans (if_pos htrim)⟩

theorem normalizeFrom_keep {out rest : List String} {raw : String} {b : Bool}
    (h : ¬ (cleaned raw = "" ∨ cleaned raw ∈ out))
    (hmatch : Go.pathMatch (cleaned raw) "" = .ok b) (htrim : Go.trim (cleaned raw) "*?." ≠ "") :
    normalizeDomainPatternsFrom out (raw :: rest) =
      normalizeDomainPatternsFrom (out ++ [cleaned raw]) rest := by
  have hstep : normalizeDomainPatternsFrom out (raw :: rest) = _ := if_neg h
  unfold cleaned at hmatch
  rw [hmatch] at hstep
  exact hstep.trans (if_neg htrim)

/-- **The loop keeps** what the relation says. -/
theorem normalizeFrom_eq_ok_iff {out patterns r : List String} :
    normalizeDomainPatternsFrom out patterns = .ok r ↔
      ∃ kept, Keeps out patterns kept ∧ r = out ++ kept := by
  induction patterns generalizing out with
  | nil =>
    show (.ok out : Except Go.Error (List String)) = .ok r ↔ _
    constructor
    · intro h
      cases h
      exact ⟨[], .nil _, (List.append_nil _).symm⟩
    · rintro ⟨kept, hkept, rfl⟩
      cases hkept
      rw [List.append_nil]
  | cons raw rest ih =>
    constructor
    · intro h
      by_cases hskip : cleaned raw = "" ∨ cleaned raw ∈ out
      · rw [normalizeFrom_skip hskip] at h
        obtain ⟨kept, hkept, rfl⟩ := ih.mp h
        exact ⟨kept, .skip hskip hkept, rfl⟩
      cases hmatch : Go.pathMatch (cleaned raw) "" with
      | error e =>
        obtain ⟨err, herr⟩ := normalizeFrom_malformed rest hskip hmatch
        rw [herr] at h
        cases h
      | ok b =>
        by_cases htrim : Go.trim (cleaned raw) "*?." = ""
        · obtain ⟨err, herr⟩ := normalizeFrom_refused rest hskip hmatch htrim
          rw [herr] at h
          cases h
        · rw [normalizeFrom_keep hskip hmatch htrim] at h
          obtain ⟨kept, hkept, rfl⟩ := ih.mp h
          exact ⟨_, .keep hskip hmatch htrim hkept, by rw [List.append_assoc]; rfl⟩
    · rintro ⟨kept, hkept, rfl⟩
      cases hkept with
      | skip hskip hkept =>
        rw [normalizeFrom_skip hskip]
        exact ih.mpr ⟨kept, hkept, rfl⟩
      | keep hskip hmatch htrim hkept =>
        rw [normalizeFrom_keep hskip hmatch htrim]
        exact ih.mpr ⟨_, hkept, by rw [List.append_assoc]; rfl⟩

end Loop

theorem normalize_eq_ok_iff {patterns out : List String} :
    normalizeDomainPatterns patterns = .ok out ↔ Keeps [] patterns out := by
  unfold normalizeDomainPatterns
  rw [normalizeFrom_eq_ok_iff]
  constructor
  · rintro ⟨kept, hkept, rfl⟩
    exact hkept
  · intro h
    exact ⟨out, h, rfl⟩

/-- What is not blank is kept, or was before. -/
theorem Keeps.mem {out patterns kept : List String} (h : Keeps out patterns kept) {raw : String}
    (hraw : raw ∈ patterns) (hne : cleaned raw ≠ "") : cleaned raw ∈ out ++ kept := by
  induction h with
  | nil => cases hraw
  | skip hskip _ ih =>
    rcases List.mem_cons.mp hraw with rfl | hraw
    · exact List.mem_append_left _ (hskip.resolve_left hne)
    · exact ih hraw
  | keep _ _ _ _ ih =>
    rcases List.mem_cons.mp hraw with rfl | hraw
    · exact List.mem_append_right _ List.mem_cons_self
    · have hmem := ih hraw
      rw [List.append_assoc] at hmem
      exact hmem

/-- What is kept is a cleaned text of the list, and not blank. -/
theorem Keeps.exists_raw {out patterns kept : List String} (h : Keeps out patterns kept)
    {p : String} (hp : p ∈ kept) : ∃ raw ∈ patterns, cleaned raw = p ∧ p ≠ "" := by
  induction h with
  | nil => cases hp
  | skip _ _ ih =>
    obtain ⟨raw, hraw, heq⟩ := ih hp
    exact ⟨raw, List.mem_cons_of_mem _ hraw, heq⟩
  | keep hnot _ _ _ ih =>
    rcases List.mem_cons.mp hp with rfl | hp
    · exact ⟨_, List.mem_cons_self, rfl, fun hempty => hnot (.inl hempty)⟩
    · obtain ⟨raw, hraw, heq⟩ := ih hp
      exact ⟨raw, List.mem_cons_of_mem _ hraw, heq⟩

theorem Keeps.length_le {out patterns kept : List String} (h : Keeps out patterns kept) :
    kept.length ≤ patterns.length := by
  induction h with
  | nil => exact Nat.le_refl 0
  | skip _ _ ih => exact Nat.le_succ_of_le ih
  | keep _ _ _ _ ih => exact Nat.succ_le_succ ih

/-- When as many are kept as there are, each is kept, cleaned. -/
theorem Keeps.eq_map {out patterns kept : List String} (h : Keeps out patterns kept)
    (hlen : kept.length = patterns.length) : kept = patterns.map cleaned := by
  induction h with
  | nil => rfl
  | skip _ hkept _ =>
    have hle := hkept.length_le
    rw [hlen, List.length_cons] at hle
    omega
  | keep _ _ _ _ ih =>
    rw [List.map_cons, ← ih (Nat.succ.inj hlen)]

/-- What is kept is kept again, where cleaning changes nothing. -/
theorem Keeps.again {out patterns kept : List String} (h : Keeps out patterns kept)
    (hclean : ∀ p ∈ kept, cleaned p = p) : Keeps out kept kept := by
  induction h with
  | nil => exact .nil _
  | skip _ _ ih => exact ih hclean
  | @keep out rest kept raw b hnot hmatch htrim _ ih =>
    have hraw := hclean (cleaned raw) List.mem_cons_self
    have hrest := ih fun p hp => hclean p (List.mem_cons_of_mem _ hp)
    rw [← hraw] at hnot hmatch htrim hrest
    have hkeep := Keeps.keep hnot hmatch htrim hrest
    rwa [hraw] at hkeep

/-- **The result is a fixed point** exactly when cleaning changes none of its patterns. -/
theorem normalize_fixed_iff {patterns out : List String}
    (h : normalizeDomainPatterns patterns = .ok out) :
    normalizeDomainPatterns out = .ok out ↔ ∀ p ∈ out, cleaned p = p := by
  rw [normalize_eq_ok_iff] at h ⊢
  constructor
  · intro hagain p hp
    have hmap := hagain.eq_map rfl
    obtain ⟨i, hi, rfl⟩ := List.getElem_of_mem hp
    have hget := List.getElem_map cleaned (l := out) (i := i) (h := by rwa [List.length_map])
    rw [← hget]
    congr 1
    exact hmap.symm
  · exact h.again

/-! ## Safe and stable lists -/

/-- **A normalized list is safe and stable** exactly when every pattern given was settled and allows
not everything. -/
theorem normalizeDomainPatterns_iff (hlaws : LowerLaws) {patterns out : List String}
    (h : normalizeDomainPatterns patterns = .ok out) :
    ((∀ p ∈ out, ∃ v, validDNSIdentifier v = .ok () ∧ domainAllowed [p] v = false) ∧
      normalizeDomainPatterns out = .ok out) ↔
    ∀ raw ∈ patterns, cleaned raw ≠ "" → Settled raw ∧ ¬ AllowsAll (cleaned raw) := by
  have hkeeps := normalize_eq_ok_iff.mp h
  have hallowed {p v : String} (hp : cleaned p = p) (hne : p ≠ "")
      (hv : validDNSIdentifier v = .ok ()) :
      domainAllowed [p] v = true ↔ Go.pathMatch p v = .ok true := by
    rw [domainAllowed_iff, or_iff_right (List.cons_ne_nil _ _)]
    simp only [List.mem_singleton, exists_eq_left, admits, matchedPattern_of_cleaned hp,
      matchedName_of_valid hv, Bool.and_eq_true, bne_iff_ne, beq_iff_eq]
    rw [and_iff_right hne]
    cases Go.pathMatch p v with
    | error e =>
      constructor
      · intro hm
        cases hm
      · intro hm
        cases hm
    | ok b =>
      exact ⟨fun hm => congrArg _ (Option.some.inj hm), fun hm => congrArg _ (Except.ok.inj hm)⟩
  rw [normalize_fixed_iff h]
  constructor
  · rintro ⟨hsafe, hfixed⟩ raw hraw hne
    have hmem : cleaned raw ∈ out := hkeeps.mem hraw hne
    refine ⟨(cleaned_cleaned_iff hlaws).mp (hfixed _ hmem), fun hall => ?_⟩
    obtain ⟨v, hv, hrefused⟩ := hsafe _ hmem
    have htrue := (hallowed (hfixed _ hmem) hne hv).mpr (allowsAll_iff.mpr hall v hv)
    rw [hrefused] at htrue
    cases htrue
  · intro hcond
    have hfixed : ∀ p ∈ out, cleaned p = p := by
      intro p hp
      obtain ⟨raw, hraw, rfl, hne⟩ := hkeeps.exists_raw hp
      exact (cleaned_cleaned_iff hlaws).mpr (hcond raw hraw hne).1
    refine ⟨fun p hp => ?_, hfixed⟩
    obtain ⟨raw, hraw, rfl, hne⟩ := hkeeps.exists_raw hp
    by_contra hnone
    refine (hcond raw hraw hne).2 (allowsAll_iff.mp fun v hv => ?_)
    refine (hallowed (hfixed _ hp) hne hv).mp ?_
    by_contra hrefused
    exact hnone ⟨v, hv, Bool.not_eq_true _ ▸ hrefused⟩

end

section

attribute [local instance] Go.asciiRuntime

theorem asciiRuntime_laws : LowerLaws where
  idem c hc := if_neg (fun h => absurd (hc.symm.trans h) Bool.false_ne_true)
  space _ _ := rfl
  dot c hc := by
    rintro rfl
    cases hc

/-- What is kept of a zone, of a class behind a star and of dots, and what the first two allow. -/
theorem samples_read :
    normalizeDomainPatterns [" *.Example.com."] = .ok ["*.example.com"] ∧
      (Go.trimSpace " *.Example.com.").toList.reverse.tail.head? = some 'm' ∧
      (∃ v ∈ probes, Go.pathMatch (cleaned " *.Example.com.") v ≠ .ok true) ∧
    normalizeDomainPatterns ["*[a-z0-9]"] = .ok ["*[a-z0-9]"] ∧
      matchedPattern "*[a-z0-9]" = "*[a-z0-9]" ∧
      (∀ v ∈ probes, Go.pathMatch "*[a-z0-9]" v = .ok true) ∧
    normalizeDomainPatterns ["a.."] = .ok ["a."] ∧ normalizeDomainPatterns ["a."] = .ok ["a"] := by
  decide +kernel

/-- A zone is safe and stable, by what the theorem says. -/
theorem zone_pattern_safe :
    (∀ p ∈ ["*.example.com"], ∃ v, validDNSIdentifier v = .ok () ∧ domainAllowed [p] v = false) ∧
      normalizeDomainPatterns ["*.example.com"] = .ok ["*.example.com"] := by
  obtain ⟨h, hback, ⟨v, hv, hrefused⟩, _⟩ := samples_read
  refine (normalizeDomainPatterns_iff asciiRuntime_laws h).mpr ?_
  intro raw hraw _
  obtain rfl := List.mem_singleton.mp hraw
  constructor
  · intro before c hsplit
    rw [hsplit, List.reverse_append] at hback
    obtain rfl : c = 'm' := Option.some.inj hback
    decide
  · rw [allowsAll_iff_probes]
    exact fun hall => hrefused (hall v hv)

/-- A class of the letters and digits behind a star is accepted, and allows everything. Of two dots
at the end one is cut at a time. -/
theorem class_allows_all :
    (normalizeDomainPatterns ["*[a-z0-9]"] = .ok ["*[a-z0-9]"] ∧
      ∀ v, validDNSIdentifier v = .ok () → domainAllowed ["*[a-z0-9]"] v = true) ∧
    normalizeDomainPatterns ["a.."] = .ok ["a."] ∧ normalizeDomainPatterns ["a."] = .ok ["a"] := by
  obtain ⟨_, _, _, haccepted, hclean, hprobes, hdots, hdot⟩ := samples_read
  have hall : AllowsAll "*[a-z0-9]" := allowsAll_iff_probes.mpr hprobes
  refine ⟨⟨haccepted, fun v hv => ?_⟩, hdots, hdot⟩
  refine (domainAllowed_iff _ _).mpr (.inr ⟨_, List.mem_singleton_self _, ?_⟩)
  rw [admits, hclean, matchedName_of_valid hv, allowsAll_iff.mpr hall v hv]
  rfl

end

end Goca.Acme
