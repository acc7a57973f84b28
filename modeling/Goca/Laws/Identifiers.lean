import Goca.Acme.Policy
import Goca.Laws.Addresses

/-!
# The grammar of identifiers

`validDNSIdentifier` looks for an address in the whole identifier, before it cuts the wildcard off.
No address begins with a star, so below a wildcard a dotted address passes for four labels.

- `validLabel_iff`, `validLabels_iff`: what the checks of the labels accept.
- `accepts_below`, `accepts_host`: what is accepted with a wildcard and without.
- `identifier_iff`: for which identifiers that is the grammar.
-/

set_option autoImplicit false

namespace Goca.Acme

/-! ## Sizes -/

/-- Runes of one byte each make a text of as many bytes as runes. -/
theorem utf8ByteSize_ofList {l : List Char} (h : ∀ c ∈ l, c.utf8Size = 1) :
    (String.ofList l).utf8ByteSize = l.length := by
  induction l with
  | nil => rfl
  | cons c l ih =>
    have hcons : String.ofList (c :: l) = String.singleton c ++ String.ofList l := by
      apply String.toList_injective
      simp
    rw [hcons, String.utf8ByteSize_append, String.utf8ByteSize_singleton, h c List.mem_cons_self,
      ih fun d hd => h d (List.mem_cons_of_mem c hd), List.length_cons, Nat.add_comm]

/-! ## Labels -/

/-- A rune of a label. -/
def labelRune (c : Char) : Bool :=
  ('a' ≤ c && c ≤ 'z') || ('0' ≤ c && c ≤ '9') || c == '-'

/-- A label rune is a byte. -/
theorem utf8Size_labelRune {c : Char} (h : labelRune c = true) : c.utf8Size = 1 := by
  refine Char.utf8Size_eq_one_iff.mpr ?_
  simp only [labelRune, Bool.or_eq_true, Bool.and_eq_true, decide_eq_true_eq, beq_iff_eq,
    Char.le_def, UInt32.le_iff_toNat_le] at h
  rw [UInt32.le_iff_toNat_le]
  rcases h with (⟨_, h⟩ | ⟨_, h⟩) | rfl
  · exact h.trans (by decide)
  · exact h.trans (by decide)
  · decide

/-- **An accepted label** has one to 63 bytes, all of them label runes, and no hyphen at an end. -/
theorem validLabel_iff {l : String} : validLabel l = .ok () ↔
    l ≠ "" ∧ l.utf8ByteSize ≤ 63 ∧ ¬ (l.toList.head? = some '-' ∨ l.toList.getLast? = some '-') ∧
      ∀ c ∈ l.toList, labelRune c = true := by
  have hall : l.toList.all labelRune = true ↔ ∀ c ∈ l.toList, labelRune c = true :=
    List.all_eq_true
  unfold validLabel
  by_cases hempty : l = ""
  · rw [if_pos hempty]
    exact ⟨fun h => (nomatch h), fun h => absurd hempty h.1⟩
  rw [if_neg hempty]
  by_cases hsize : 63 < l.utf8ByteSize
  · rw [if_pos hsize]
    exact ⟨fun h => (nomatch h), fun h => absurd h.2.1 (Nat.not_le.mpr hsize)⟩
  rw [if_neg hsize]
  by_cases hends : l.toList.head? = some '-' ∨ l.toList.getLast? = some '-'
  · rw [if_pos hends]
    exact ⟨fun h => (nomatch h), fun h => absurd hends h.2.2.1⟩
  rw [if_neg hends]
  by_cases hrunes : l.toList.all labelRune = true
  · exact ⟨fun _ => ⟨hempty, Nat.not_lt.mp hsize, hends, hall.mp hrunes⟩, fun _ => if_pos hrunes⟩
  · constructor
    · intro h
      change (if l.toList.all labelRune = true then _ else _) = _ at h
      rw [if_neg hrunes] at h
      cases h
    · intro h
      exact absurd (hall.mpr h.2.2.2) hrunes

/-- The labels are accepted when each of them is. -/
theorem validLabels_iff {ls : List String} :
    validLabels ls = .ok () ↔ ∀ l ∈ ls, validLabel l = .ok () := by
  induction ls with
  | nil => exact ⟨fun _ l hl => (nomatch hl), fun _ => rfl⟩
  | cons l ls ih =>
    rw [validLabels, List.forall_mem_cons, ← ih]
    cases validLabel l with
    | error e => exact ⟨fun h => (nomatch h), fun h => (nomatch h.1)⟩
    | ok u => exact ⟨fun h => ⟨rfl, h⟩, fun h => h.2⟩

/-! ## The grammar -/

/-- A letter, a digit or a hyphen. -/
def IsLDH (c : Char) : Prop :=
  ('a' ≤ c ∧ c ≤ 'z') ∨ ('A' ≤ c ∧ c ≤ 'Z') ∨ ('0' ≤ c ∧ c ≤ '9') ∨ c = '-'

/-- An LDH label: one to 63 letters, digits and hyphens, with no hyphen at an end. -/
structure Label (l : List Char) : Prop where
  nonempty : l ≠ []
  length : l.length ≤ 63
  runes : ∀ c ∈ l, IsLDH c
  first : l.head? ≠ some '-'
  last : l.getLast? ≠ some '-'

/-- At least so many labels, with dots between them. -/
def Labels (least : Nat) (name : String) : Prop :=
  ∃ labels : List (List Char), name.toList = ['.'].intercalate labels ∧
    least ≤ labels.length ∧ ∀ l ∈ labels, Label l

/-- An identifier: labels, or two labels at least below a wildcard, 253 characters in all and no
address. -/
def Identifier (v : String) : Prop :=
  v.length ≤ 253 ∧ ∃ name, Go.parseIP name = none ∧
    (v = name ∧ Labels 1 name ∨ v = "*." ++ name ∧ Labels 2 name)

/-- A text without a capital letter. -/
def Lowered (v : String) : Prop := ∀ c ∈ v.toList, ¬ ('A' ≤ c ∧ c ≤ 'Z')

theorem labelRune_iff {c : Char} (h : ¬ ('A' ≤ c ∧ c ≤ 'Z')) : labelRune c = true ↔ IsLDH c := by
  simp only [labelRune, IsLDH, Bool.or_eq_true, Bool.and_eq_true, decide_eq_true_eq, beq_iff_eq,
    or_assoc, or_iff_right h]

/-- The check of a label is the grammar's, below the capital letters. -/
theorem validLabel_iff_label {l : List Char} (hl : ∀ c ∈ l, ¬ ('A' ≤ c ∧ c ≤ 'Z')) :
    validLabel (.ofList l) = .ok () ↔ Label l := by
  have hrunes : (∀ c ∈ l, labelRune c = true) ↔ ∀ c ∈ l, IsLDH c :=
    forall₂_congr fun c hc => labelRune_iff (hl c hc)
  have hempty : String.ofList l ≠ "" ↔ l ≠ [] := by
    rw [Ne, ← String.toList_inj, String.toList_ofList]
    rfl
  rw [validLabel_iff, hempty, String.toList_ofList, not_or]
  constructor
  · rintro ⟨hne, hsize, ⟨hfirst, hlast⟩, hall⟩
    rw [utf8ByteSize_ofList fun c hc => utf8Size_labelRune (hall c hc)] at hsize
    exact ⟨hne, hsize, hrunes.mp hall, hfirst, hlast⟩
  · intro h
    have hall := hrunes.mpr h.runes
    rw [utf8ByteSize_ofList fun c hc => utf8Size_labelRune (hall c hc)]
    exact ⟨h.nonempty, h.length, ⟨h.first, h.last⟩, hall⟩

/-- A label has no dot. -/
theorem Label.no_dot {l : List Char} (h : Label l) : '.' ∉ l := by
  intro hdot
  rcases h.runes '.' hdot with h | h | h | h
  · exact absurd h (by decide)
  · exact absurd h (by decide)
  · exact absurd h (by decide)
  · exact absurd h (by decide)

/-- A name is the labels that it is split into, joined. -/
theorem join_split (name : String) :
    ['.'].intercalate (name.toList.splitOn '.') = name.toList :=
  List.intercalate_splitOn '.'

/-- The labels of a name are those that it is split into. -/
theorem labels_iff {least : Nat} {name : String} (hname : Lowered name) (hleast : 1 ≤ least) :
    Labels least name ↔
      least ≤ (Go.split name '.').length ∧ validLabels (Go.split name '.') = .ok () := by
  have hchecked : validLabels (Go.split name '.') = .ok () ↔
      ∀ l ∈ name.toList.splitOn '.', Label l := by
    have hmem : ∀ l ∈ name.toList.splitOn '.', ∀ c ∈ l, ¬ ('A' ≤ c ∧ c ≤ 'Z') := by
      intro l hl c hc
      refine hname c ?_
      rw [← join_split name]
      exact Pki.mem_intercalate_of_mem hl hc
    unfold Go.split
    rw [validLabels_iff, List.forall_mem_map]
    exact forall₂_congr fun l hl => validLabel_iff_label (hmem l hl)
  unfold Labels
  rw [hchecked, Go.split, List.length_map]
  constructor
  · rintro ⟨labels, hjoin, hlen, hlabels⟩
    have hne : labels ≠ [] := by
      rintro rfl
      exact absurd (hleast.trans hlen) (by decide)
    rw [hjoin, List.splitOn_intercalate '.' (fun l hl => (hlabels l hl).no_dot) hne]
    exact ⟨hlen, hlabels⟩
  · rintro ⟨hlen, hlabels⟩
    exact ⟨_, (List.intercalate_splitOn '.').symm, hlen, hlabels⟩

/-- A rune of labels between dots. -/
theorem Labels.rune {least : Nat} {name : String} (h : Labels least name) :
    ∀ c ∈ name.toList, IsLDH c ∨ c = '.' := by
  obtain ⟨labels, hjoin, _, hlabels⟩ := h
  intro c hc
  rw [hjoin] at hc
  rcases Pki.mem_intercalate hc with hdot | ⟨l, hl, hc⟩
  · exact .inr hdot
  · exact .inl ((hlabels l hl).runes c hc)

theorem utf8Size_isLDH {c : Char} (h : IsLDH c) : c.utf8Size = 1 := by
  refine Char.utf8Size_eq_one_iff.mpr ?_
  simp only [IsLDH, Char.le_def, UInt32.le_iff_toNat_le] at h
  rw [UInt32.le_iff_toNat_le]
  rcases h with ⟨_, h⟩ | ⟨_, h⟩ | ⟨_, h⟩ | rfl
  · exact h.trans (by decide)
  · exact h.trans (by decide)
  · exact h.trans (by decide)
  · decide

/-- Labels between dots have as many bytes as runes. -/
theorem Labels.size {least : Nat} {name : String} (h : Labels least name) :
    name.utf8ByteSize = name.length := by
  have hsize := utf8ByteSize_ofList (l := name.toList) fun c hc => by
    rcases h.rune c hc with hc | rfl
    · exact utf8Size_isLDH hc
    · rfl
  rwa [String.ofList_toList, String.length_toList] at hsize

/-- Labels have no star. -/
theorem Labels.contains_star {least : Nat} {name : String} (h : Labels least name) :
    Go.contains name "*" = false := by
  refine Bool.eq_false_iff.mpr fun hstar => ?_
  rcases h.rune '*' (Pki.mem_of_contains hstar (by decide)) with (h | h | h | h) | h
  · exact absurd h (by decide)
  · exact absurd h (by decide)
  · exact absurd h (by decide)
  · exact absurd h (by decide)
  · exact absurd h (by decide)

/-! ## What is accepted -/

/-- **Without a wildcard** the check is the grammar's. -/
theorem accepts_host {v : String} (hv : Lowered v) (hcut : Go.cutPrefix v "*." = none) :
    validDNSIdentifier v = .ok () ↔ v.length ≤ 253 ∧ Go.parseIP v = none ∧ Labels 1 v := by
  have hlabels : Labels 1 v ↔ validLabels (Go.split v '.') = .ok () := by
    rw [labels_iff hv le_rfl]
    refine and_iff_right ?_
    unfold Go.split
    rw [List.length_map]
    exact List.length_pos_iff.mpr (List.splitOn_ne_nil _ _)
  unfold validDNSIdentifier
  rw [hcut]
  dsimp only [Option.getD_none, Option.isSome_none]
  constructor
  · intro h
    split at h
    · cases h
    next hsize =>
    split at h
    · cases h
    next hip =>
    split at h
    · cases h
    rw [if_neg fun hwild => nomatch hwild.1] at h
    have hname := hlabels.mpr h
    refine ⟨?_, Option.not_isSome_iff_eq_none.mp hip, hname⟩
    rw [← hname.size]
    exact Nat.not_lt.mp hsize
  · rintro ⟨hlen, hip, hname⟩
    rw [hname.size, if_neg (Nat.not_lt.mpr hlen), hip, Option.isSome_none,
      if_neg Bool.false_ne_true, hname.contains_star, if_neg Bool.false_ne_true,
      if_neg fun hwild => nomatch hwild.1]
    exact hlabels.mp hname

/-- An identifier below a wildcard is no address. -/
theorem parseIP_wildcard (d : String) : Go.parseIP ("*." ++ d) = none := by
  cases hip : Go.parseIP ("*." ++ d) with
  | none => rfl
  | some ip =>
    have hstar : '*' ∈ ("*." ++ d).toList := by
      rw [String.toList_append]
      exact List.mem_append_left _ (by decide)
    exact absurd (Pki.rune_of_parseIP hip hstar) (by decide)

/-- **Below a wildcard** an address is not looked for. -/
theorem accepts_below {d : String} (hd : Lowered d) :
    validDNSIdentifier ("*." ++ d) = .ok () ↔ ("*." ++ d).length ≤ 253 ∧ Labels 2 d := by
  have hlabels := labels_iff hd (show 1 ≤ 2 by decide)
  have hsize (h : Labels 2 d) : ("*." ++ d).utf8ByteSize = ("*." ++ d).length := by
    rw [String.utf8ByteSize_append, String.length_append, h.size]
    rfl
  unfold validDNSIdentifier
  rw [Go.cutPrefix_append, parseIP_wildcard]
  dsimp only [Option.getD_some, Option.isSome_some, Option.isSome_none]
  constructor
  · intro h
    split at h
    · cases h
    next hbytes =>
    rw [if_neg Bool.false_ne_true] at h
    split at h
    · cases h
    split at h
    · cases h
    next hshort =>
    have hname := hlabels.mpr ⟨Nat.not_lt.mp fun hlt => hshort ⟨rfl, hlt⟩, h⟩
    rw [← hsize hname]
    exact ⟨Nat.not_lt.mp hbytes, hname⟩
  · rintro ⟨hlen, hname⟩
    obtain ⟨hleast, hchecked⟩ := hlabels.mp hname
    rw [hsize hname, if_neg (Nat.not_lt.mpr hlen), if_neg Bool.false_ne_true, hname.contains_star,
      if_neg Bool.false_ne_true, if_neg fun hwild => absurd hwild.2 (Nat.not_lt.mpr hleast)]
    exact hchecked

/-! ## Addresses -/

/-- A dotted IPv4 address. -/
def DottedIPv4 (name : String) : Prop := (Go.parseIPv4Fields name.toList).isSome = true

/-- An octet is a label. -/
theorem label_of_octet {l : List Char} {n : Nat} (h : Go.parseOctet l = some n) :
    Label l ∧ l.length ≤ 3 := by
  have hdigit : ∀ c ∈ l, c.isDigit = true := fun c hc => Pki.isDigit_of_parseOctet h hc
  have hdash : '-' ∉ l := fun hc => absurd (hdigit '-' hc) (by decide)
  have hlen : l ≠ [] ∧ l.length ≤ 3 := by
    unfold Go.parseOctet at h
    split at h
    · cases h
    · cases h
    next hne _ =>
      split at h
      · dsimp only at h
        split at h
        · next hsmall => exact ⟨fun hnil => hne hnil, hsmall.1⟩
        · cases h
      · cases h
  refine ⟨⟨hlen.1, hlen.2.trans (by decide), ?_, ?_, ?_⟩, hlen.2⟩
  · intro c hc
    have hc := hdigit c hc
    simp only [Char.isDigit, Bool.and_eq_true, decide_eq_true_eq] at hc
    exact .inr (.inr (.inl hc))
  · intro hhead
    exact hdash (List.mem_of_head? hhead)
  · intro hlast
    exact hdash (List.mem_of_getLast? hlast)

/-- A dotted address is four labels, of fifteen runes at most. -/
theorem DottedIPv4.labels {name : String} (h : DottedIPv4 name) :
    Labels 4 name ∧ name.length ≤ 15 := by
  obtain ⟨v, hv⟩ := Option.isSome_iff_exists.mp h
  have hjoin := join_split name
  unfold Go.parseIPv4Fields at hv
  split at hv
  · next heq =>
    obtain ⟨l₁, s₁, hs, h₁, heq⟩ := List.map_eq_cons_iff.mp heq
    obtain ⟨l₂, s₂, rfl, h₂, heq⟩ := List.map_eq_cons_iff.mp heq
    obtain ⟨l₃, s₃, rfl, h₃, heq⟩ := List.map_eq_cons_iff.mp heq
    obtain ⟨l₄, s₄, rfl, h₄, heq⟩ := List.map_eq_cons_iff.mp heq
    obtain rfl := List.map_eq_nil_iff.mp heq
    have h₁ := label_of_octet h₁
    have h₂ := label_of_octet h₂
    have h₃ := label_of_octet h₃
    have h₄ := label_of_octet h₄
    rw [hs] at hjoin
    refine ⟨⟨[l₁, l₂, l₃, l₄], hjoin.symm, le_rfl, ?_⟩, ?_⟩
    · simp only [List.forall_mem_cons]
      exact ⟨h₁.1, h₂.1, h₃.1, h₄.1, fun l hl => nomatch hl⟩
    · rw [← String.length_toList, ← hjoin]
      simp only [List.intercalate_cons_cons, List.intercalate_singleton, List.length_append,
        List.length_singleton]
      omega
  · cases hv

/-- A dotted address is an address. -/
theorem DottedIPv4.parseIP {name : String} (h : DottedIPv4 name) : Go.parseIP name ≠ none := by
  obtain ⟨labels, hjoin, hlen, hlabels⟩ := h.labels.1
  obtain ⟨v, hv⟩ := Option.isSome_iff_exists.mp h
  have hdot : '.' ∈ name.toList := by
    match labels, hlen with
    | l₁ :: l₂ :: rest, _ =>
      rw [hjoin, List.intercalate_cons_cons]
      exact List.mem_append_left _ (List.mem_append_right _ (List.mem_singleton_self _))
  have hother : ∀ c ∈ name.toList, (c == '.' || c == ':' || c == '%') = true → c = '.' := by
    intro c hc hmark
    simp only [Bool.or_eq_true, beq_iff_eq] at hmark
    rcases h.labels.1.rune c hc with hldh | rfl
    · rcases hmark with (rfl | rfl) | rfl
      · rfl
      · rcases hldh with h | h | h | h <;> exact absurd h (by decide)
      · rcases hldh with h | h | h | h <;> exact absurd h (by decide)
    · rfl
  have hfind : name.toList.find? (fun c => c == '.' || c == ':' || c == '%') = some '.' := by
    cases hf : name.toList.find? (fun c => c == '.' || c == ':' || c == '%') with
    | none => exact absurd (List.find?_eq_none.mp hf '.' hdot) (by decide)
    | some c =>
      have hmark := List.find?_some hf
      rw [hother c (List.mem_of_find?_eq_some hf) hmark]
  unfold Go.parseIP
  rw [hfind, hv]
  exact Option.some_ne_none _

/-- An address made of labels is a dotted one. -/
theorem dottedIPv4_of_parseIP {least : Nat} {name : String} (h : Labels least name)
    (hip : Go.parseIP name ≠ none) : DottedIPv4 name := by
  unfold Go.parseIP at hip
  split at hip
  · unfold DottedIPv4
    cases hv : Go.parseIPv4Fields name.toList with
    | none =>
      rw [hv] at hip
      exact absurd rfl hip
    | some v => rfl
  · next hfind =>
    rcases h.rune ':' (List.mem_of_find?_eq_some hfind) with (h | h | h | h) | h
    · exact absurd h (by decide)
    · exact absurd h (by decide)
    · exact absurd h (by decide)
    · exact absurd h (by decide)
    · exact absurd h (by decide)
  · exact absurd rfl hip

/-! ## The check and the grammar -/

theorem identifier_host {v : String} (hcut : Go.cutPrefix v "*." = none) :
    Identifier v ↔ v.length ≤ 253 ∧ Go.parseIP v = none ∧ Labels 1 v := by
  unfold Identifier
  refine and_congr_right fun _ => ⟨?_, fun h => ⟨v, h.1, .inl ⟨rfl, h.2⟩⟩⟩
  rintro ⟨name, hip, ⟨rfl, h⟩ | ⟨rfl, _⟩⟩
  · exact ⟨hip, h⟩
  · rw [Go.cutPrefix_append] at hcut
    cases hcut

theorem identifier_below {d : String} :
    Identifier ("*." ++ d) ↔ ("*." ++ d).length ≤ 253 ∧ Go.parseIP d = none ∧ Labels 2 d := by
  unfold Identifier
  refine and_congr_right fun _ => ⟨?_, fun h => ⟨d, h.1, .inr ⟨rfl, h.2⟩⟩⟩
  rintro ⟨name, hip, ⟨rfl, h⟩ | ⟨hname, h⟩⟩
  · have hstar : Go.contains ("*." ++ d) "*" = true := by
      unfold Go.contains
      rw [String.toList_append]
      rfl
    rw [h.contains_star] at hstar
    cases hstar
  · have hcut := Go.cutPrefix_append "*." name
    rw [← hname, Go.cutPrefix_append] at hcut
    obtain rfl := Option.some.inj hcut
    exact ⟨hip, h⟩

/-- **The check accepts exactly the grammar**, for an identifier in lower case, unless it is a
wildcard over a dotted address. -/
theorem identifier_iff {v : String} (hv : Lowered v) :
    (validDNSIdentifier v = .ok () ↔ Identifier v) ↔ ¬ ∃ d, v = "*." ++ d ∧ DottedIPv4 d := by
  cases hcut : Go.cutPrefix v "*." with
  | none =>
    constructor
    · rintro - ⟨d, rfl, _⟩
      rw [Go.cutPrefix_append] at hcut
      cases hcut
    · intro _
      rw [accepts_host hv hcut, identifier_host hcut]
  | some d =>
    obtain rfl := Go.eq_of_cutPrefix hcut
    have hd : Lowered d := by
      intro c hc
      refine hv c ?_
      rw [String.toList_append]
      exact List.mem_append_right _ hc
    rw [accepts_below hd, identifier_below]
    constructor
    · rintro hiff ⟨d', heq, hdotted⟩
      have hsame : d = d' := by
        rw [heq, Go.cutPrefix_append] at hcut
        exact (Option.some.inj hcut).symm
      rw [hsame] at hiff
      obtain ⟨⟨labels, hjoin, hlen, hlabels⟩, hshort⟩ := hdotted.labels
      have htotal : ("*." ++ d').length ≤ 253 := by
        rw [String.length_append]
        change 2 + d'.length ≤ 253
        omega
      exact hdotted.parseIP (hiff.mp ⟨htotal, labels, hjoin, by omega, hlabels⟩).2.1
    · intro hnot
      refine ⟨fun h => ⟨h.1, ?_, h.2⟩, fun h => ⟨h.1, h.2.2⟩⟩
      by_contra hip
      exact hnot ⟨d, rfl, dottedIPv4_of_parseIP h.2 hip⟩

/-- A wildcard over a name of two labels is a case of the theorem. -/
theorem wildcard_identifier :
    validDNSIdentifier "*.example.com" = .ok () ↔ Identifier "*.example.com" := by
  have hlower : Lowered "*.example.com" := by
    have hall : "*.example.com".toList.all (fun c => !decide ('A' ≤ c ∧ c ≤ 'Z')) = true := by
      decide +kernel
    intro c hc
    have hrune := List.all_eq_true.mp hall c hc
    rwa [Bool.not_eq_true', decide_eq_false_iff_not] at hrune
  refine (identifier_iff hlower).mpr ?_
  rintro ⟨d, hd, hdotted⟩
  have hcut := Go.cutPrefix_append "*." d
  rw [← hd] at hcut
  have hname : Go.cutPrefix "*.example.com" "*." = some "example.com" := by decide +kernel
  obtain rfl := Option.some.inj (hname.symm.trans hcut)
  exact absurd hdotted (by unfold DottedIPv4; decide +kernel)

/-- A wildcard over an address is accepted. -/
theorem wildcard_over_address :
    validDNSIdentifier "*.10.0.0.1" = .ok () ∧ ¬ Identifier "*.10.0.0.1" := by
  refine ⟨by decide +kernel, fun h => ?_⟩
  have hnone := (identifier_below (d := "10.0.0.1")).mp h
  exact absurd hnone.2.1 (by decide +kernel)

end Goca.Acme
