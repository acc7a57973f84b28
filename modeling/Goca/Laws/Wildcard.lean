import Goca.Go.Glob
import Goca.Laws.Identifiers

/-!
# Wildcard identifiers under the domain policy

An order for `*.d` is checked against the patterns of the credential the way a concrete name is: by
`path.Match` on the text, star and all. A pattern whose own star stands for the wildcard label
allows every name below `d` with it. A pattern that takes the star character with a `?`, a
character class or an escape may allow `*.d` and not the names it covers.
-/

set_option autoImplicit false

namespace Goca.Acme

/-! ## What the identifier check accepts -/

/-- An accepted label is not empty and made of label runes. -/
theorem validLabel_ok {l : String} (h : validLabel l = .ok ()) :
    l ≠ "" ∧ ∀ c ∈ l.toList, labelRune c = true :=
  ⟨(validLabel_iff.mp h).1, (validLabel_iff.mp h).2.2.2⟩

/-- **An accepted wildcard**: below the star only label runes and dots, and no dot at the end. -/
theorem validDNSIdentifier_wildcard {d : String} (h : validDNSIdentifier ("*." ++ d) = .ok ()) :
    (∀ c ∈ d.toList, labelRune c = true ∨ c = '.') ∧
      ∃ c, d.toList.getLast? = some c ∧ c ≠ '.' := by
  have hlabels : validLabels (Go.split d '.') = .ok () := by
    rw [validDNSIdentifier, Go.cutPrefix_append] at h
    dsimp only [Option.getD_some] at h
    split at h
    next => cases h
    next =>
      split at h
      next => cases h
      next =>
        split at h
        next => cases h
        next =>
          split at h
          next => cases h
          next => exact h
  have hlabel (l : List Char) (hl : l ∈ d.toList.splitOn '.') : validLabel (.ofList l) = .ok () :=
    validLabels_iff.mp hlabels _ (List.mem_map_of_mem hl)
  constructor
  · intro c hc
    have hsplit : ['.'].intercalate (d.toList.splitOn '.') = d.toList :=
      List.intercalate_splitOn '.'
    rw [← hsplit] at hc
    rcases Pki.mem_intercalate hc with hdot | ⟨l, hl, hc⟩
    · exact .inr hdot
    · left
      apply (validLabel_ok (hlabel l hl)).2
      rw [String.toList_ofList]
      exact hc
  · -- after a dot at the end there would be one more label, an empty one
    have hempty : [] ∉ d.toList.splitOn '.' := by
      intro hmem
      exact (validLabel_ok (hlabel [] hmem)).1 rfl
    cases hlast : d.toList.getLast? with
    | none =>
      rw [List.getLast?_eq_none_iff] at hlast
      rw [hlast, List.splitOn_nil] at hempty
      exact absurd (List.mem_cons_self ..) hempty
    | some c =>
      refine ⟨c, rfl, ?_⟩
      rintro rfl
      obtain ⟨before, hd⟩ := List.getLast?_eq_some_iff.mp hlast
      rw [hd, List.splitOn_append_cons_self, List.splitOn_nil] at hempty
      exact hempty (List.mem_append_right _ (List.mem_cons_self ..))

/-! ## The name the patterns see -/

/-- A label rune is its own lower case, and no slash. -/
theorem lowerRune_labelRune [Go.Runtime] {c : Char} (h : labelRune c = true ∨ c = '.') :
    Go.lowerRune c = c ∧ c ≠ '/' := by
  have hrange : c.val.toNat < 128 ∧ (c.val.toNat < 65 ∨ 90 < c.val.toNat) ∧
      c.val.toNat ≠ 47 := by
    rcases h with h | rfl
    · simp only [labelRune, Bool.or_eq_true, Bool.and_eq_true, decide_eq_true_eq, beq_iff_eq,
        Char.le_def, UInt32.le_iff_toNat_le] at h
      rcases h with (h | h) | rfl
      · have hlow : 97 ≤ c.val.toNat := h.1
        have hhigh : c.val.toNat ≤ 122 := h.2
        omega
      · have hlow : 48 ≤ c.val.toNat := h.1
        have hhigh : c.val.toNat ≤ 57 := h.2
        omega
      · decide
    · decide
  obtain ⟨hascii, hupper, hslash⟩ := hrange
  constructor
  · have hisASCII : Go.isASCII c = true := by
      rw [Go.isASCII, decide_eq_true_eq, UInt32.lt_iff_toNat_lt]
      exact hascii
    rw [Go.lowerRune, if_pos hisASCII]
    refine dif_neg ?_
    rintro ⟨hlow, hhigh⟩
    have hlow : 65 ≤ c.val.toNat := UInt32.le_iff_toNat_le.mp hlow
    have hhigh : c.val.toNat ≤ 90 := UInt32.le_iff_toNat_le.mp hhigh
    omega
  · rintro rfl
    exact hslash rfl

/-- A text of label runes and dots is its own lower case. -/
theorem toLower_host [Go.Runtime] {s : String}
    (h : ∀ c ∈ s.toList, labelRune c = true ∨ c = '.') : Go.toLower s = s := by
  have hmap : s.toList.map Go.lowerRune = s.toList := by
    conv_rhs => rw [← List.map_id s.toList]
    apply List.map_congr_left
    intro c hc
    exact (lowerRune_labelRune (h c hc)).1
  rw [Go.toLower, hmap, String.ofList_toList]

/-- A pattern of a credential as `domainAllowed` matches it. -/
def matchedPattern [Go.Runtime] (p : String) : String := Go.toLower (Go.trimSpace p)

/-- An identifier as `domainAllowed` matches it. -/
def matchedName [Go.Runtime] (identifier : String) : String :=
  Go.toLower (Go.trimSuffix identifier ".")

/-- Whether one pattern of a credential allows an identifier. -/
def admits [Go.Runtime] (p identifier : String) : Bool :=
  matchedPattern p != "" &&
    (Go.pathMatch (matchedPattern p) (matchedName identifier)).toOption == some true

/-- **The policy is a disjunction**: no pattern at all, or one that allows the identifier. -/
theorem domainAllowed_iff [Go.Runtime] (patterns : List String) (identifier : String) :
    domainAllowed patterns identifier = true ↔
      patterns = [] ∨ ∃ p ∈ patterns, admits p identifier = true := by
  rw [domainAllowed, Bool.or_eq_true, List.isEmpty_iff, List.any_eq_true]
  rfl

/-- Below an accepted zone, the policy sees the lower-case label and the zone as it is. -/
theorem matchedName_below [Go.Runtime] {d : String}
    (hd : validDNSIdentifier ("*." ++ d) = .ok ()) (l : String) :
    matchedName (l ++ ("." ++ d)) = Go.toLower l ++ ("." ++ d) := by
  obtain ⟨hrunes, c, hlast, hc⟩ := validDNSIdentifier_wildcard hd
  have htrim : Go.trimSuffix (l ++ ("." ++ d)) "." = l ++ ("." ++ d) := by
    rw [Go.trimSuffix, if_neg]
    rw [Go.hasSuffix, List.isSuffixOf_iff_suffix]
    rintro ⟨before, hbefore⟩
    have hdot : (l ++ ("." ++ d)).toList.getLast? = some '.' := by
      rw [← hbefore]
      exact List.getLast?_concat
    rw [String.toList_append, String.toList_append, List.getLast?_append,
      List.getLast?_append, hlast, Option.some_or, Option.some_or, Option.some.injEq] at hdot
    exact hc hdot
  have hzone : Go.toLower ("." ++ d) = "." ++ d := by
    apply toLower_host
    intro c hc
    rw [String.toList_append, List.mem_append] at hc
    rcases hc with hc | hc
    · exact .inr (List.mem_singleton.mp hc)
    · exact hrunes c hc
  have happend (s t : String) : Go.toLower (s ++ t) = Go.toLower s ++ Go.toLower t := by
    rw [Go.toLower, String.toList_append, List.map_append, String.ofList_append]
    rfl
  rw [matchedName, htrim, happend, hzone]

/-- The names the law is about have no slash. -/
theorem noSlash_below [Go.Runtime] {d l : String} (hd : validDNSIdentifier ("*." ++ d) = .ok ())
    (hl : validLabel (Go.toLower l) = .ok ()) :
    '/' ∉ (Go.toLower l ++ ("." ++ d)).toList := by
  obtain ⟨hrunes, -⟩ := validDNSIdentifier_wildcard hd
  intro hmem
  rw [String.toList_append, String.toList_append, List.mem_append, List.mem_append] at hmem
  rcases hmem with hmem | hmem | hmem
  · exact (lowerRune_labelRune (.inl ((validLabel_ok hl).2 _ hmem))).2 rfl
  · cases List.mem_singleton.mp hmem
  · exact (lowerRune_labelRune (hrunes _ hmem)).2 rfl

/-- The option a match is read as. -/
theorem matches_iff {r : Except Go.BadPattern Bool} :
    (r.toOption == some true) = true ↔ r = .ok true := by
  cases r with
  | error e => simp [Except.toOption]
  | ok matched => simp [Except.toOption]

/-! ## The law -/

/-- What a pattern of a credential takes in the place of the star of `*.d`. -/
def takesLabel [Go.Runtime] (p l d : String) : Bool :=
  Go.standsFor (matchedPattern p) (Go.toLower l) ("." ++ d)

/-- **One pattern that allows `*.d`** allows `l.d` exactly when it takes `l` for its star. -/
theorem admits_below_iff [Go.Runtime] {p d l : String}
    (hd : validDNSIdentifier ("*." ++ d) = .ok ()) (hl : validLabel (Go.toLower l) = .ok ())
    (hp : admits p ("*." ++ d) = true) :
    admits p (l ++ "." ++ d) = true ↔ takesLabel p l d = true := by
  have hstar : matchedName ("*." ++ d) = "*" ++ ("." ++ d) := matchedName_below hd "*"
  rw [admits, Bool.and_eq_true, hstar, matches_iff] at hp
  rw [admits, Bool.and_eq_true, String.append_assoc, matchedName_below hd, matches_iff,
    Go.pathMatch_wildcard_iff (validLabel_ok hl).1 (noSlash_below hd hl) hp.2]
  exact and_iff_right hp.1

/-- **Wildcard soundness**: below an accepted wildcard `*.d` a name `l.d` is allowed exactly when
the list is empty, or one of the patterns that allow `*.d` takes `l` in the place of its star, or
another pattern allows `l.d` itself. A pattern that begins with a star and matches `.d` allows
every `l.d`. -/
theorem wildcard_covers_iff [Go.Runtime] {patterns : List String} {d l : String}
    (hd : validDNSIdentifier ("*." ++ d) = .ok ()) (hl : validLabel (Go.toLower l) = .ok ()) :
    (domainAllowed patterns (l ++ "." ++ d) = true ↔
      patterns = [] ∨ (∃ p ∈ patterns, admits p ("*." ++ d) = true ∧ takesLabel p l d = true) ∨
        ∃ p ∈ patterns, admits p ("*." ++ d) = false ∧ admits p (l ++ "." ++ d) = true) ∧
    ((∃ p ∈ patterns, (matchedPattern p).toList.head? = some '*' ∧
        Go.pathMatch (matchedPattern p) ("." ++ d) = .ok true) →
      domainAllowed patterns (l ++ "." ++ d) = true) := by
  constructor
  · rw [domainAllowed_iff]
    apply or_congr Iff.rfl
    constructor
    · rintro ⟨p, hp, hbelow⟩
      cases hwild : admits p ("*." ++ d) with
      | true => exact .inl ⟨p, hp, hwild, (admits_below_iff hd hl hwild).mp hbelow⟩
      | false => exact .inr ⟨p, hp, hwild, hbelow⟩
    · rintro (⟨p, hp, hwild, htakes⟩ | ⟨p, hp, -, hbelow⟩)
      · exact ⟨p, hp, (admits_below_iff hd hl hwild).mpr htakes⟩
      · exact ⟨p, hp, hbelow⟩
  · rintro ⟨p, hp, hstar, hzone⟩
    rw [domainAllowed_iff]
    right
    refine ⟨p, hp, ?_⟩
    have hmatch := Go.pathMatch_in_zone hstar hzone (noSlash_below hd hl)
    have hne : matchedPattern p ≠ "" := by
      intro hempty
      rw [hempty] at hstar
      cases hstar
    rw [admits, String.append_assoc, matchedName_below hd, hmatch]
    simp [hne, Except.toOption]

/-- The law at work: under a pattern with a star of its own, every label of the zone. -/
theorem internal_zone_covered :
    let _ := Go.asciiRuntime
    domainAllowed ["?.example.com", "*.internal"] ("*." ++ "svc.internal") = true ∧
      domainAllowed ["?.example.com", "*.internal"] ("App-1" ++ "." ++ "svc.internal") = true := by
  let _ := Go.asciiRuntime
  have hd : validDNSIdentifier ("*." ++ "svc.internal") = .ok () := by decide +kernel
  have hl : validLabel (Go.toLower "App-1") = .ok () := by decide +kernel
  refine ⟨by decide +kernel, (wildcard_covers_iff hd hl).2 ⟨"*.internal", by simp, ?_, ?_⟩⟩
  · decide +kernel
  · decide +kernel

/-- **A pattern may allow a wildcard and not what it covers**: an accepted pattern takes the star
of `*.example.com` with its question mark, and allows no label of two runes. -/
theorem questionMark_takes_star :
    let _ := Go.asciiRuntime
    normalizeDomainPatterns ["?.example.com"] = .ok ["?.example.com"] ∧
      validDNSIdentifier ("*." ++ "example.com") = .ok () ∧
      domainAllowed ["?.example.com"] ("*." ++ "example.com") = true ∧
      validLabel "ab" = .ok () ∧
      domainAllowed ["?.example.com"] ("ab" ++ "." ++ "example.com") = false := by
  decide +kernel

end Goca.Acme
