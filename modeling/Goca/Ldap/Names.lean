import Goca.Go.Decimal
import Goca.Ldap.Client
import Goca.Laws.AltNames

/-!
# Names of groups

What the texts that `matchesAny` compares stand for: a distinguished name, a list of attributes from
the leaf to the root, or a bare name. Two names agree where they are the same DN, or have the same
common name, and letter case does not matter. `agree_iff` says that this is what the comparison of
the texts decides, for names that are written without escapes, quotes or several values in a part.
Of other texts it says nothing; `matchesAny_iff` does.
-/

set_option autoImplicit false

namespace Goca.Ldap

/-- Two texts agree: they are the same, or have the same common name, or the common name of one is
the other, blanks around them and letter case aside. -/
def Agree [Go.Runtime] (s t : String) : Prop :=
  norm s = norm t ∨ norm s = cn t ∨ cn s = norm t ∨ cn s = cn t

/-- **What `matchesAny` decides**: some value agrees with some text of the list. -/
theorem matchesAny_iff [Go.Runtime] {values want : List String} :
    matchesAny values want = true ↔ ∃ v ∈ values, ∃ w ∈ want, Agree v w := by
  unfold matchesAny Agree
  cases values with
  | nil => simp
  | cons v values =>
    cases want with
    | nil => simp
    | cons w want =>
      simp only [List.isEmpty_cons, Bool.or_self, Bool.false_eq_true, if_false, List.any_eq_true,
        Bool.or_eq_true, List.contains_iff_mem, List.mem_flatMap, List.mem_cons (a := norm _),
        List.mem_cons (a := cn _), List.not_mem_nil, or_false]
      constructor
      · rintro ⟨w', hw, ⟨v', hv, h | h⟩ | ⟨v', hv, h | h⟩⟩
        · exact ⟨v', hv, w', hw, .inl h.symm⟩
        · exact ⟨v', hv, w', hw, .inr (.inr (.inl h.symm))⟩
        · exact ⟨v', hv, w', hw, .inr (.inl h.symm)⟩
        · exact ⟨v', hv, w', hw, .inr (.inr (.inr h.symm))⟩
      · rintro ⟨v', hv, w', hw, h | h | h | h⟩
        · exact ⟨w', hw, .inl ⟨v', hv, .inl h.symm⟩⟩
        · exact ⟨w', hw, .inr ⟨v', hv, .inl h.symm⟩⟩
        · exact ⟨w', hw, .inl ⟨v', hv, .inr h.symm⟩⟩
        · exact ⟨w', hw, .inr ⟨v', hv, .inr h.symm⟩⟩

/-! ## Distinguished names -/

/-- The runes that have a meaning of their own in the text of a DN. -/
def special : List Char := [',', '=', '+', '"', '\\', '<', '>', ';', '#']

/-- An attribute with its value, whose text needs no escape. -/
structure RDN [Go.Runtime] where
  attr : String
  value : String
  attr_ne : attr ≠ ""
  attr_runes : ∀ c ∈ attr.toList, c.isAlphanum = true ∨ c = '-' ∨ c = '.'
  value_trimmed : Go.trimSpace value = value
  value_plain : ∀ c ∈ value.toList, c ∉ special ∧ Go.lowerRune c ∉ special

variable [Go.Runtime]

/-- A distinguished name, from the leaf to the root. -/
abbrev DN := List RDN

/-- The text of an attribute with its value. -/
def RDN.text (r : RDN) : String := r.attr ++ "=" ++ r.value

/-- The text of a DN. -/
def DN.text (d : DN) : String := Go.join (d.map RDN.text) ","

/-- The attribute and the value in lower case. -/
def RDN.folded (r : RDN) : String × String := (Go.toLower r.attr, Go.toLower r.value)

/-- **The same DN**, letter case aside. -/
def DN.Same (d d' : DN) : Prop := d.map RDN.folded = d'.map RDN.folded

/-- The common name of a DN, in lower case: the value of its first `cn`. -/
def DN.commonName (d : DN) : Option String :=
  (d.find? fun r => Go.toLower r.attr = "cn").map fun r => Go.toLower r.value

/-- A name of a group, or of a user. -/
inductive Name
  | full (d : DN)
  | bare (name : String)

/-- A text writes a name, with blanks around it or without. A bare name has no equals sign. -/
def Name.Writes : Name → String → Prop
  | .full d, s => d ≠ [] ∧ Go.trimSpace s = d.text
  | .bare name, s => Go.trimSpace s = name ∧ '=' ∉ (Go.toLower s).toList

/-- **Names agree**: DNs that are the same or have the same common name, a DN and a bare name that is
its common name, and bare names that are the same. -/
def Name.Agrees : Name → Name → Prop
  | .full d, .full d' => d.Same d' ∨ ∃ n, d.commonName = some n ∧ d'.commonName = some n
  | .full d, .bare n => d.commonName = some (Go.toLower n)
  | .bare n, .full d => d.commonName = some (Go.toLower n)
  | .bare m, .bare n => Go.toLower m = Go.toLower n

/-! ## The text of a DN -/

omit [Go.Runtime] in
/-- A rune of an attribute type is of ASCII, no blank, and not special in either letter case. -/
theorem attrRune_facts {c : Char} (h : c.isAlphanum = true ∨ c = '-' ∨ c = '.') :
    Go.isASCII c = true ∧ Go.isSpace c = false ∧ c ∉ special ∧ c.toLower ∉ special := by
  have hascii : c.toNat < 128 := by
    rcases h with h | rfl | rfl
    · exact Go.lt_of_isAlphanum h
    · decide
    · decide
  exact Go.ascii_induction (P := fun c => c.isAlphanum = true ∨ c = '-' ∨ c = '.' →
    Go.isASCII c = true ∧ Go.isSpace c = false ∧ c ∉ special ∧ c.toLower ∉ special)
    (by decide +kernel) hascii h

/-- It is not special after lowering either. -/
theorem attrRune_plain {c : Char} (h : c.isAlphanum = true ∨ c = '-' ∨ c = '.') :
    c ∉ special ∧ Go.lowerRune c ∉ special := by
  obtain ⟨hascii, _, hspecial, hlower⟩ := attrRune_facts h
  exact ⟨hspecial, by simpa [Go.lowerRune, hascii] using hlower⟩

theorem toList_toLower (s : String) : (Go.toLower s).toList = s.toList.map Go.lowerRune :=
  String.toList_ofList

/-- An equals sign and a comma are their own lower-case forms. -/
theorem lowerRune_mark : Go.lowerRune '=' = '=' ∧ Go.lowerRune ',' = ',' := ⟨rfl, rfl⟩

/-- An attribute and a value of letters, digits, hyphens and dots. -/
def Plain (attr value : String) : Prop :=
  attr ≠ "" ∧ ∀ c ∈ attr.toList ++ value.toList, c.isAlphanum = true ∨ c = '-' ∨ c = '.'

/-- Such texts need no escape. -/
def Plain.rdn {attr value : String} (h : Plain attr value) : RDN where
  attr
  value
  attr_ne := h.1
  attr_runes c hc := h.2 c (List.mem_append_left _ hc)
  value_trimmed := Go.trimSpace_eq_self fun c hc =>
    (attrRune_facts (h.2 c (List.mem_append_right _ hc))).2.1
  value_plain c hc := attrRune_plain (h.2 c (List.mem_append_right _ hc))

namespace RDN

variable (r : RDN)

theorem toList_text : r.text.toList = r.attr.toList ++ '=' :: r.value.toList := by
  simp [text]

theorem lower_text : r.text.toList.map Go.lowerRune =
    r.folded.1.toList ++ '=' :: r.folded.2.toList := by
  rw [toList_text, List.map_append, List.map_cons, lowerRune_mark.1]
  simp [folded, toList_toLower]

theorem attr_lower {c : Char} (hc : c ∈ r.folded.1.toList) : c ∉ special := by
  simp only [folded, toList_toLower] at hc
  obtain ⟨d, hd, rfl⟩ := List.mem_map.mp hc
  exact (attrRune_plain (r.attr_runes d hd)).2

theorem value_lower {c : Char} (hc : c ∈ r.folded.2.toList) : c ∉ special := by
  simp only [folded, toList_toLower] at hc
  obtain ⟨d, hd, rfl⟩ := List.mem_map.mp hc
  exact (r.value_plain d hd).2

/-- No part of a DN has a comma. -/
theorem comma_not_mem : ',' ∉ r.text.toList := by
  rw [toList_text]
  intro h
  simp only [List.mem_append, List.mem_cons] at h
  rcases h with h | h | h
  · exact (attrRune_facts (r.attr_runes _ h)).2.2.1 (by simp [special])
  · cases h
  · exact (r.value_plain _ h).1 (by simp [special])

theorem comma_not_mem_lower : ',' ∉ r.text.toList.map Go.lowerRune := by
  rw [lower_text]
  intro h
  simp only [List.mem_append, List.mem_cons] at h
  rcases h with h | h | h
  · exact r.attr_lower h (by simp [special])
  · cases h
  · exact r.value_lower h (by simp [special])

/-- A part is trimmed. -/
theorem trim_text : Go.trimRunes Go.isSpace r.text.toList = r.text.toList := by
  obtain ⟨a, as, ha⟩ := List.exists_cons_of_ne_nil (String.toList_eq_nil_iff.not.mpr r.attr_ne)
  apply Go.trimRunes_eq_self
  · intro c hc
    rw [toList_text, ha] at hc
    obtain rfl : a = c := by simpa using hc
    exact (attrRune_facts (r.attr_runes a (ha ▸ List.mem_cons_self))).2.1
  · have hvalue : Go.trimRunes Go.isSpace r.value.toList = r.value.toList := by
      have h := congrArg String.toList r.value_trimmed
      rwa [Go.trimSpace, String.toList_ofList] at h
    intro c hc
    rw [toList_text, List.getLast?_append, List.getLast?_cons] at hc
    cases hlast : r.value.toList.getLast? with
    | none =>
      rw [hlast] at hc
      obtain rfl : '=' = c := by simpa using hc
      rfl
    | some d =>
      rw [hlast] at hc
      obtain rfl : d = c := by simpa using hc
      exact Go.last_of_trimmed hvalue d hlast

end RDN

namespace DN

variable (d : DN)

theorem toList_text : (text d).toList = [','].intercalate (d.map fun r => r.text.toList) := by
  unfold text Go.join
  rw [String.toList_intercalate, List.map_map]
  rfl

/-- The text of folded attributes and values. -/
def render (l : List (String × String)) : List Char :=
  [','].intercalate (l.map fun p => p.1.toList ++ '=' :: p.2.toList)

/-- The parts of a text, each cut at its first equals sign. -/
def parse (t : List Char) : List (List Char × List Char) :=
  (t.splitOn ',').map fun part => (part.takeWhile (· != '='), (part.dropWhile (· != '=')).tail)

/-- Lowering the text of a DN lowers its attributes and values. -/
theorem lower_text : (Go.toLower (text d)).toList = render (d.map RDN.folded) := by
  have hparts : (d.map RDN.folded).map (fun p => p.1.toList ++ '=' :: p.2.toList) =
      (d.map fun r => r.text.toList).map (List.map Go.lowerRune) := by
    rw [List.map_map, List.map_map]
    apply List.map_congr_left
    intro r _
    exact r.lower_text.symm
  rw [toList_toLower, toList_text, render, hparts]
  generalize (d.map fun r => r.text.toList) = parts
  cases parts with
  | nil => rfl
  | cons part parts =>
    rw [List.map_cons, Words.intercalate_cons, Words.intercalate_cons, List.map_append,
      List.map_flatMap, List.flatMap_map]
    rfl

/-- **A DN is read back from its text**, up to letter case. -/
theorem parse_lower_text (hd : d ≠ []) : parse (Go.toLower (text d)).toList =
    d.map fun r => (r.folded.1.toList, r.folded.2.toList) := by
  have hsplit : (Go.toLower (text d)).toList.splitOn ',' =
      d.map fun r => r.text.toList.map Go.lowerRune := by
    rw [lower_text, render, List.map_map]
    have hparts : (d.map ((fun p : String × String => p.1.toList ++ '=' :: p.2.toList) ∘
        RDN.folded)) = d.map fun r => r.text.toList.map Go.lowerRune := by
      apply List.map_congr_left
      intro r _
      exact r.lower_text.symm
    rw [hparts]
    apply List.splitOn_intercalate
    · intro part hpart
      obtain ⟨r, _, rfl⟩ := List.mem_map.mp hpart
      exact r.comma_not_mem_lower
    · simpa using hd
  unfold parse
  rw [hsplit, List.map_map]
  apply List.map_congr_left
  intro r _
  have hattr : ∀ c ∈ r.folded.1.toList, (c != '=') = true := by
    intro c hc
    have hspecial := r.attr_lower hc
    rw [bne_iff_ne]
    rintro rfl
    exact hspecial (by simp [special])
  simp only [Function.comp_apply, RDN.lower_text]
  rw [List.takeWhile_append_of_pos hattr, List.dropWhile_append_of_pos hattr]
  simp

/-- **Texts of DNs are equal up to letter case exactly where the DNs are.** -/
theorem same_iff {d d' : DN} (hd : d ≠ []) (hd' : d' ≠ []) :
    Go.toLower (text d) = Go.toLower (text d') ↔ Same d d' := by
  constructor
  · intro h
    have hparse := congrArg (fun t : String => parse t.toList) h
    simp only [parse_lower_text d hd, parse_lower_text d' hd'] at hparse
    have hfold (d : DN) : d.map RDN.folded =
        (d.map fun r => (r.folded.1.toList, r.folded.2.toList)).map fun p =>
          (String.ofList p.1, String.ofList p.2) := by
      rw [List.map_map]
      apply List.map_congr_left
      intro r _
      simp
    unfold Same
    rw [hfold d, hfold d', hparse]
  · intro h
    apply String.toList_inj.mp
    rw [lower_text, lower_text, h]

/-- The text of a DN has an equals sign in lower case. -/
theorem equals_mem_lower (hd : d ≠ []) : '=' ∈ (Go.toLower (text d)).toList := by
  obtain ⟨r, rest, rfl⟩ := List.exists_cons_of_ne_nil hd
  rw [lower_text, List.map_cons, render, List.map_cons, Words.intercalate_cons]
  simp

/-- No common name has one. -/
theorem equals_not_mem_commonName {n : String} (h : commonName d = some n) : '=' ∉ n.toList := by
  obtain ⟨r, _, rfl⟩ := Option.map_eq_some_iff.mp h
  intro hmem
  exact r.value_lower hmem (by simp [special])

end DN

/-! ## What is compared -/

omit [Go.Runtime] in
/-- The parts of a text are trimmed, so blanks around the text do not matter. -/
theorem trim_parts {parts : List (List Char)} (hne : parts ≠ []) (hcomma : ∀ p ∈ parts, ',' ∉ p)
    {pre post : List Char} (hpre : ∀ c ∈ pre, Go.isSpace c = true)
    (hpost : ∀ c ∈ post, Go.isSpace c = true) :
    ((pre ++ [','].intercalate parts ++ post).splitOn ',').map (Go.trimRunes Go.isSpace) =
      parts.map (Go.trimRunes Go.isSpace) := by
  have hblank {l : List Char} (hl : ∀ c ∈ l, Go.isSpace c = true) : ',' ∉ l :=
    fun h => absurd (hl _ h) (by decide)
  induction parts generalizing pre with
  | nil => exact absurd rfl hne
  | cons part parts ih =>
    simp only [List.mem_cons, forall_eq_or_imp] at hcomma
    by_cases hrest : parts = []
    · subst hrest
      rw [List.intercalate_singleton, List.splitOn_eq_singleton]
      · rw [List.map_singleton, List.map_singleton, Go.trimRunes_padded hpre hpost]
      · simp [hblank hpre, hblank hpost, hcomma.1]
    · have hnil : ∀ c ∈ ([] : List Char), Go.isSpace c = true := by simp
      have htail := ih hrest hcomma.2 hnil
      rw [List.intercalate_cons_of_ne_nil hrest]
      have hsplit : pre ++ (part ++ [','] ++ [','].intercalate parts) ++ post =
          (pre ++ part) ++ ',' :: ([] ++ [','].intercalate parts ++ post) := by
        simp
      rw [hsplit, List.splitOn_append_cons_self_of_not_mem, List.map_cons, htail, List.map_cons]
      · have hpart := Go.trimRunes_padded hpre hnil part
        rw [List.append_nil] at hpart
        rw [hpart]
      · simp [hblank hpre, hcomma.1]

/-- The trimmed parts of a text that writes a DN. -/
theorem parts_of_writes {d : DN} {s : String} (h : (Name.full d).Writes s) :
    (Go.split s ',').map Go.trimSpace = d.map RDN.text := by
  obtain ⟨hd, htext⟩ := h
  obtain ⟨pre, post, hpadded, hpre, hpost⟩ := Go.exists_padding Go.isSpace s.toList
  have hbody : Go.trimRunes Go.isSpace s.toList = [','].intercalate (d.map fun r => r.text.toList) := by
    rw [← DN.toList_text, ← htext, Go.trimSpace, String.toList_ofList]
  rw [hbody] at hpadded
  have hne : (d.map fun r => r.text.toList) ≠ [] := by simpa using hd
  have hcomma : ∀ part ∈ d.map fun r => r.text.toList, ',' ∉ part := by
    intro part hpart
    obtain ⟨r, _, rfl⟩ := List.mem_map.mp hpart
    exact r.comma_not_mem
  have htrimmed := trim_parts hne hcomma hpre hpost
  rw [← hpadded] at htrimmed
  have hlists : (Go.split s ',').map Go.trimSpace =
      ((s.toList.splitOn ',').map (Go.trimRunes Go.isSpace)).map String.ofList := by
    unfold Go.split Go.trimSpace
    simp
  rw [hlists, htrimmed, List.map_map, List.map_map]
  apply List.map_congr_left
  intro r _
  simp [r.trim_text]

/-- A part is a common name exactly where its attribute is `cn`. -/
theorem hasPrefix_cn (r : RDN) :
    Go.hasPrefix (Go.toLower r.text) "cn=" = decide (Go.toLower r.attr = "cn") := by
  have hnot : '=' ∉ r.folded.1.toList := fun h => r.attr_lower h (by simp [special])
  have hcn : Go.toLower r.attr = "cn" ↔ r.folded.1.toList = ['c', 'n'] := by
    rw [← String.toList_inj]
    rfl
  rw [Bool.eq_iff_iff, decide_eq_true_iff, hcn, Go.hasPrefix, toList_toLower, r.lower_text]
  generalize r.folded.1.toList = a at hnot
  match a with
  | [] => simp
  | [x] => simp
  | [x, y] => simp [@eq_comm _ 'c', @eq_comm _ 'n']
  | x :: y :: z :: a =>
    simp only [List.mem_cons, not_or] at hnot
    simp [hnot.2.2.1]

/-- What follows the `cn=` of a part is its value. -/
theorem dropBytes_cn {r : RDN} (h : Go.toLower r.attr = "cn") :
    Pki.dropBytes 3 r.text.toList = r.value.toList := by
  have hlist : r.attr.toList.map Go.lowerRune = ['c', 'n'] := by
    rw [← toList_toLower, h]
    rfl
  obtain ⟨a, b, hattr⟩ : ∃ a b, r.attr.toList = [a, b] := by
    match hr : r.attr.toList with
    | [] => simp [hr] at hlist
    | [a] => simp [hr] at hlist
    | [a, b] => exact ⟨a, b, rfl⟩
    | a :: b :: c :: rest => simp [hr] at hlist
  have hsize {c : Char} (hc : c ∈ r.attr.toList) : c.utf8Size = 1 := by
    have hascii := Go.isASCII_iff.mp (attrRune_facts (r.attr_runes c hc)).1
    rw [Char.utf8Size_eq_one_iff, UInt32.le_iff_toNat_le]
    exact Nat.le_of_lt_succ hascii
  have hsum : (([a, b, '='] : List Char).map Char.utf8Size).sum = 3 := by
    simp [hsize (c := a) (by simp [hattr]), hsize (c := b) (by simp [hattr])]
    rfl
  rw [r.toList_text, hattr]
  have := Pki.dropBytes_append [a, b, '='] r.value.toList
  rwa [hsum] at this

/-- **The common name of a written DN**, and its whole text where it has none. -/
theorem cn_full {d : DN} {s : String} (h : (Name.full d).Writes s) :
    cn s = d.commonName.getD (Go.toLower d.text) := by
  have hfind : (d.map RDN.text).find? (fun p => Go.hasPrefix (Go.toLower p) "cn=") =
      (d.find? fun r => Go.toLower r.attr = "cn").map RDN.text := by
    rw [List.find?_map]
    simp only [Function.comp_def, hasPrefix_cn]
  unfold cn DN.commonName
  simp only [parts_of_writes h, hfind]
  cases hr : d.find? fun r => Go.toLower r.attr = "cn" with
  | none =>
    show Go.toLower (Go.trimSpace s) = _
    rw [h.2]
    rfl
  | some r =>
    have hattr : Go.toLower r.attr = "cn" := by simpa using List.find?_some hr
    show Go.toLower (Go.trimSpace (.ofList (Pki.dropBytes 3 r.text.toList))) = Go.toLower r.value
    rw [dropBytes_cn hattr, String.ofList_toList, r.value_trimmed]

/-- A text that writes a bare name has no part that begins with `cn=`. -/
theorem cn_bare {name s : String} (h : (Name.bare name).Writes s) : cn s = Go.toLower name := by
  have hparts : ((Go.split s ',').map Go.trimSpace).find?
      (fun p => Go.hasPrefix (Go.toLower p) "cn=") = none := by
    rw [List.find?_eq_none]
    intro p hp hprefix
    obtain ⟨part, hpart, rfl⟩ := List.mem_map.mp hp
    obtain ⟨l, hl, rfl⟩ := List.mem_map.mp hpart
    have hequals : '=' ∈ (Go.toLower (Go.trimSpace (.ofList l))).toList :=
      (List.isPrefixOf_iff_prefix.mp hprefix).subset (by simp)
    rw [toList_toLower, Go.trimSpace, String.toList_ofList, String.toList_ofList] at hequals
    obtain ⟨c, hc, hlower⟩ := List.mem_map.mp hequals
    have hmem : c ∈ [','].intercalate (s.toList.splitOn ',') :=
      Pki.mem_intercalate_of_mem hl (Go.mem_of_mem_trimRunes hc)
    rw [List.intercalate_splitOn] at hmem
    apply h.2
    rw [toList_toLower, ← hlower]
    exact List.mem_map_of_mem hmem
  unfold cn norm
  simp only [hparts, h.1]

theorem norm_of_writes {s : String} : ∀ {n : Name}, n.Writes s → norm s = match n with
    | .full d => Go.toLower d.text
    | .bare name => Go.toLower name
  | .full _, h => congrArg Go.toLower h.2
  | .bare _, h => congrArg Go.toLower h.1

/-- A bare name has no equals sign in lower case. -/
theorem equals_not_mem_bare {name s : String} (h : (Name.bare name).Writes s) :
    '=' ∉ (Go.toLower name).toList := by
  intro hmem
  apply h.2
  rw [toList_toLower] at hmem ⊢
  obtain ⟨c, hc, hlower⟩ := List.mem_map.mp hmem
  rw [← h.1, Go.trimSpace, String.toList_ofList] at hc
  exact List.mem_map.mpr ⟨c, Go.mem_of_mem_trimRunes hc, hlower⟩

omit [Go.Runtime] in
/-- Texts with and without an equals sign differ. -/
theorem ne_of_equals {s t : String} (hs : '=' ∈ s.toList) (ht : '=' ∉ t.toList) : s ≠ t := by
  rintro rfl
  exact ht hs

/-- Two DNs agree as their texts do. -/
theorem agree_full {d d' : DN} {s t : String} (hs : (Name.full d).Writes s)
    (ht : (Name.full d').Writes t) : Agree s t ↔ (Name.full d).Agrees (.full d') := by
  have hsame := DN.same_iff hs.1 ht.1
  have hcommon (e : DN) (he : e ≠ []) {n : String} {f : DN} (hn : f.commonName = some n) :
      Go.toLower e.text ≠ n :=
    ne_of_equals (e.equals_mem_lower he) (f.equals_not_mem_commonName hn)
  simp only [Agree, norm_of_writes hs, norm_of_writes ht, cn_full hs, cn_full ht, Name.Agrees,
    ← hsame]
  cases hd : d.commonName with
  | none =>
    cases hd' : d'.commonName with
    | none => simp
    | some n' => simp [hcommon d hs.1 hd']
  | some n =>
    cases hd' : d'.commonName with
    | none => simp [(hcommon d' ht.1 hd).symm]
    | some n' => simp [hcommon d hs.1 hd', (hcommon d' ht.1 hd).symm, eq_comm]

/-- A DN and a bare name agree as their texts do. -/
theorem agree_full_bare {d : DN} {name s t : String} (hs : (Name.full d).Writes s)
    (ht : (Name.bare name).Writes t) : Agree s t ↔ d.commonName = some (Go.toLower name) := by
  have htext : Go.toLower d.text ≠ Go.toLower name :=
    ne_of_equals (d.equals_mem_lower hs.1) (equals_not_mem_bare ht)
  simp only [Agree, norm_of_writes hs, norm_of_writes ht, cn_full hs, cn_bare ht]
  cases hd : d.commonName with
  | none => simp [htext]
  | some n => simp [htext]

theorem Agree.symm {s t : String} (h : Agree s t) : Agree t s := by
  rcases h with h | h | h | h
  · exact .inl h.symm
  · exact .inr (.inr (.inl h.symm))
  · exact .inr (.inl h.symm)
  · exact .inr (.inr (.inr h.symm))

/-- **Texts agree exactly where the names that they write do.** -/
theorem agree_iff {m n : Name} {s t : String} (hs : m.Writes s) (ht : n.Writes t) :
    Agree s t ↔ m.Agrees n := by
  cases m with
  | full d =>
    cases n with
    | full d' => exact agree_full hs ht
    | bare name => exact agree_full_bare hs ht
  | bare name =>
    cases n with
    | full d => exact (Iff.intro Agree.symm Agree.symm).trans (agree_full_bare ht hs)
    | bare name' =>
      simp only [Agree, norm_of_writes hs, norm_of_writes ht, cn_bare hs, cn_bare ht, Name.Agrees,
        or_self]

end Goca.Ldap
