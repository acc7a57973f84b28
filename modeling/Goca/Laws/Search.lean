import Mathlib
import Goca.Go.Decimal
import Goca.Store.Stats
import Goca.Laws.Returned
import Goca.Laws.Samples

/-!
# Searches

The status of a certificate is decided three times: by the search, by the dashboard's counters and
in Go by `EffectiveStatus`. The first two ask whether `not_after` is later than the clock, the third
whether the clock is later than `not_after`, so they differ in the one instant where both are equal.
-/

set_option autoImplicit false

namespace Goca.Store

open Go (Time)
open Goca.Pki
open Interleave Act

variable {c : Certificate} {now : Time}

/-! ## The status of a certificate -/

/-- The statuses a search can ask for. -/
def statuses : List String := ["active", "expired", "revoked"]

section Status

variable [Go.Runtime]

/-- **Agreed**: one status filter and no other selects the certificate, and it is the status that
`EffectiveStatus` reports. -/
structure Agreed (now : Time) (c : Certificate) : Prop where
  one : ∃! st, st ∈ statuses ∧ ({ status := st } : CertFilter).selects now c = true
  reported : ({ status := c.effectiveStatus now } : CertFilter).selects now c = true

/-- **Counted**: the dashboard shows how many certificates each status filter selects. -/
structure Counted (t : CaTables) (users : Nat) (now : Time) : Prop where
  active : (t.stats users now).active =
    t.certificates.count (({ status := "active" } : CertFilter).selects now)
  expired : (t.stats users now).expired =
    t.certificates.count (({ status := "expired" } : CertFilter).selects now)
  revoked : (t.stats users now).revoked =
    t.certificates.count (({ status := "revoked" } : CertFilter).selects now)

/-- A search without a text asks for none. -/
theorem queryMatches_empty {f : CertFilter} (hf : Go.trimSpace f.query = "") :
    f.queryMatches c = true := by
  unfold CertFilter.queryMatches
  rw [hf]
  rfl

/-- A status filter asks for the status only. -/
theorem selects_status (st : String) :
    ({ status := st } : CertFilter).selects now c =
      ({ status := st } : CertFilter).statusMatches now c := by
  have hquery : ({ status := st } : CertFilter).queryMatches c = true :=
    queryMatches_empty (show Go.trimSpace "" = "" by decide)
  unfold CertFilter.selects
  rw [hquery]
  simp

attribute [local simp] CertFilter.statusMatches

theorem selects_active : ({ status := "active" } : CertFilter).selects now c = true ↔
    c.status = .active ∧ now < c.notAfter := by
  rw [selects_status]
  simp

theorem selects_expired : ({ status := "expired" } : CertFilter).selects now c = true ↔
    c.status = .active ∧ c.notAfter ≤ now := by
  rw [selects_status]
  cases hst : c.status <;> simp [hst]

theorem selects_revoked : ({ status := "revoked" } : CertFilter).selects now c = true ↔
    c.status = .revoked := by
  rw [selects_status]
  simp

/-- Whatever the clock shows, one status filter selects the certificate. -/
theorem one_status (now : Time) (c : Certificate) :
    ∃! st, st ∈ statuses ∧ ({ status := st } : CertFilter).selects now c = true := by
  have honly (st : String) (hst : st ∈ statuses) : st = "active" ∨ st = "expired" ∨
      st = "revoked" := by
    simpa [statuses] using hst
  cases hstatus : c.status with
  | revoked =>
    refine ⟨"revoked", ⟨by decide, selects_revoked.mpr hstatus⟩, ?_⟩
    rintro st ⟨hst, hsel⟩
    rcases honly st hst with rfl | rfl | rfl
    · exact absurd ((selects_active.mp hsel).1.symm.trans hstatus) (by decide)
    · exact absurd ((selects_expired.mp hsel).1.symm.trans hstatus) (by decide)
    · rfl
  | active =>
    have hrevoked : ¬ ({ status := "revoked" } : CertFilter).selects now c = true := by
      intro hsel
      exact absurd ((selects_revoked.mp hsel).symm.trans hstatus) (by decide)
    by_cases hlate : now < c.notAfter
    · refine ⟨"active", ⟨by decide, selects_active.mpr ⟨hstatus, hlate⟩⟩, ?_⟩
      rintro st ⟨hst, hsel⟩
      rcases honly st hst with rfl | rfl | rfl
      · rfl
      · exact absurd (selects_expired.mp hsel).2 (not_le.mpr hlate)
      · exact absurd hsel hrevoked
    · refine ⟨"expired", ⟨by decide, selects_expired.mpr ⟨hstatus, not_lt.mp hlate⟩⟩, ?_⟩
      rintro st ⟨hst, hsel⟩
      rcases honly st hst with rfl | rfl | rfl
      · exact absurd (selects_active.mp hsel).2 hlate
      · rfl
      · exact absurd hsel hrevoked

/-- The filter of the reported status selects the certificate, but in its last instant. -/
theorem reported_iff : ({ status := c.effectiveStatus now } : CertFilter).selects now c = true ↔
    c.status = .revoked ∨ c.notAfter ≠ now := by
  unfold Certificate.effectiveStatus
  by_cases hstatus : c.status = .revoked
  · rw [if_pos hstatus, selects_revoked]
    simp [hstatus]
  · have hactive : c.status = .active := by
      cases h : c.status with
      | active => rfl
      | revoked => exact absurd h hstatus
    rw [if_neg hstatus]
    by_cases hlate : now.after c.notAfter = true
    · have hlt : c.notAfter < now := of_decide_eq_true hlate
      rw [if_pos hlate, selects_expired]
      simp [hactive, hlt.le, hlt.ne]
    · have hle : now ≤ c.notAfter := not_lt.mp fun h => hlate (decide_eq_true h)
      rw [if_neg hlate, selects_active, lt_iff_le_and_ne]
      simp [hactive, hle, eq_comm]

/-- The counters of the dashboard are conditions of a search. -/
theorem counted (t : CaTables) (users : Nat) (now : Time) : Counted t users now where
  active := by
    refine congrArg t.certificates.count (funext fun c => ?_)
    rw [selects_status]
    rfl
  expired := by
    refine congrArg t.certificates.count (funext fun c => ?_)
    rw [selects_status]
    rfl
  revoked := by
    refine congrArg t.certificates.count (funext fun c => ?_)
    rw [selects_status]
    rfl

/-- **The views of a status agree** on the certificates of a database at an instant exactly when
none that is not revoked ends in this instant. -/
theorem status_views_agree (t : CaTables) (users : Nat) (now : Time) :
    ((∀ c ∈ t.certificates.rows, Agreed now c) ∧ Counted t users now) ↔
      ∀ c ∈ t.certificates.rows, c.status = .revoked ∨ c.notAfter ≠ now := by
  constructor
  · rintro ⟨hagreed, -⟩ c hc
    exact reported_iff.mp (hagreed c hc).reported
  · intro h
    exact ⟨fun c hc => ⟨one_status now c, reported_iff.mpr (h c hc)⟩, counted t users now⟩

end Status

section LastInstant

attribute [local instance] Go.asciiRuntime

/-- In the last instant of its year the sample certificate is listed among the expired ones and
reported as active. -/
theorem leaf_listed_expired :
    ({ status := "expired" } : CertFilter).selects Samples.leaf.notAfter Samples.leaf = true ∧
      Samples.leaf.effectiveStatus Samples.leaf.notAfter = "active" ∧
      ¬ ((∀ c ∈ (Samples.installation Samples.root [Samples.leaf]).ca.certificates.rows,
          Agreed Samples.leaf.notAfter c) ∧
        Counted (Samples.installation Samples.root [Samples.leaf]).ca 0 Samples.leaf.notAfter) := by
  have hexpired : ({ status := "expired" } : CertFilter).selects Samples.leaf.notAfter
      Samples.leaf = true := by decide
  have hactive : Samples.leaf.effectiveStatus Samples.leaf.notAfter = "active" := by decide
  refine ⟨hexpired, hactive, ?_⟩
  rintro ⟨hagreed, -⟩
  have hreported := (hagreed Samples.leaf (by decide)).reported
  rw [hactive] at hreported
  exact absurd hreported (by decide)

end LastInstant

/-! ## Texts in columns -/

attribute [local simp] like

/-- A pattern without wildcards in front matches a text that is, letters in either case, its
front. -/
theorem like_append {p q : List Char} (hp : ∀ r ∈ p, r ≠ '%' ∧ r ≠ '_') {s : List Char} :
    like (p ++ q) s = true ↔
      ∃ u v, s = u ++ v ∧ u.map Char.toLower = p.map Char.toLower ∧ like q v = true := by
  induction p generalizing s with
  | nil =>
    constructor
    · intro h
      exact ⟨[], s, rfl, rfl, h⟩
    · rintro ⟨u, v, rfl, hu, h⟩
      obtain rfl := List.map_eq_nil_iff.mp hu
      exact h
  | cons r p ih =>
    obtain ⟨hr, hp⟩ := List.forall_mem_cons.mp hp
    cases s with
    | nil =>
      rw [List.cons_append, like]
      · simp
      · exact hr.1
      · exact hr.2
    | cons d s =>
      rw [List.cons_append, like]
      · rw [Bool.and_eq_true, beq_iff_eq, ih hp]
        constructor
        · rintro ⟨hd, u, v, rfl, hu, h⟩
          exact ⟨d :: u, v, rfl, by rw [List.map_cons, List.map_cons, hd, hu], h⟩
        · rintro ⟨u, v, hs, hu, h⟩
          cases u with
          | nil => cases hu
          | cons e u =>
            obtain ⟨rfl, rfl⟩ := List.cons.inj hs
            obtain ⟨hd, hu⟩ := List.cons.inj hu
            exact ⟨hd.symm, u, v, rfl, hu, h⟩
      · exact hr.1
      · exact hr.2

theorem like_any (s : List Char) : like ['%'] s = true := by
  rw [like, List.any_eq_true]
  exact ⟨[], (List.mem_tails [] s).mpr List.nil_suffix, rfl⟩

/-- The text occurs in the column, the letters of ASCII in either case. -/
def Occurs (text : List Char) (col : String) : Prop :=
  text.map Char.toLower <:+: col.toList.map Char.toLower

instance (text : List Char) (col : String) : Decidable (Occurs text col) := by
  unfold Occurs; infer_instance

/-- A text without wildcards between two of them matches a column exactly when it occurs there. -/
theorem likeAround_iff {text : String} (htext : ∀ r ∈ text.toList, r ≠ '%' ∧ r ≠ '_')
    {col : String} : likeAround text col = true ↔ Occurs text.toList col := by
  unfold likeAround Occurs
  rw [List.cons_append, like, List.any_eq_true]
  constructor
  · rintro ⟨tail, htail, h⟩
    obtain ⟨front, hcol⟩ := (List.mem_tails _ _).mp htail
    obtain ⟨u, v, rfl, hu, -⟩ := (like_append htext).mp h
    refine ⟨front.map Char.toLower, v.map Char.toLower, ?_⟩
    rw [← hu, ← hcol, List.append_assoc, List.map_append, List.map_append]
  · rintro ⟨front, rest, h⟩
    obtain ⟨u, rest', hcol, hu, -⟩ := List.map_eq_append_iff.mp h.symm
    obtain ⟨front', mid, rfl, -, hmid⟩ := List.map_eq_append_iff.mp hu
    refine ⟨mid ++ rest', (List.mem_tails _ _).mpr ⟨front', ?_⟩, ?_⟩
    · rw [hcol, List.append_assoc]
    · exact (like_append htext).mpr ⟨mid, rest', rfl, hmid, like_any rest'⟩

/-- Where a column is folded to one case makes no difference. -/
theorem occurs_sqlLower {text : List Char} {col : String} :
    Occurs text (sqlLower col) ↔ Occurs text col := by
  unfold Occurs sqlLower
  rw [String.toList_ofList, List.map_map]
  simp [Function.comp_def]

theorem occurs_sqlUpper {text : List Char} {col : String} :
    Occurs text (sqlUpper col) ↔ Occurs text col := by
  unfold Occurs sqlUpper
  rw [String.toList_ofList, List.map_map]
  simp [Function.comp_def]

/-- No other rune of ASCII is a wildcard in another case. -/
theorem wildcard_of_ascii {r : Char} (hr : Go.isASCII r = true) :
    (r ≠ '%' → r.toLower ≠ '%' ∧ r.toUpper ≠ '%') ∧
      (r ≠ '_' → r.toLower ≠ '_' ∧ r.toUpper ≠ '_') :=
  Go.ascii_induction (P := fun r => (r ≠ '%' → r.toLower ≠ '%' ∧ r.toUpper ≠ '%') ∧
    (r ≠ '_' → r.toLower ≠ '_' ∧ r.toUpper ≠ '_')) (by decide +kernel) (Go.isASCII_iff.mp hr)

section Text

variable [Go.Runtime]

/-- A rune that is searched for as it is: no wildcard of `LIKE`, and outside ASCII of one case. -/
structure Verbatim (r : Char) : Prop where
  percent : r ≠ '%'
  underscore : r ≠ '_'
  cased : Go.isASCII r = true ∨ Go.Runtime.lowerRune r = r ∧ Go.Runtime.upperRune r = r

theorem Verbatim.lowerRune {r : Char} (h : Verbatim r) :
    Go.lowerRune r ≠ '%' ∧ Go.lowerRune r ≠ '_' ∧ (Go.lowerRune r).toLower = r.toLower := by
  obtain ⟨hpercent, hunderscore, hcased⟩ := h
  unfold Go.lowerRune
  by_cases hr : Go.isASCII r = true
  · rw [if_pos hr]
    refine ⟨?_, ?_, Char.toLower_toLower_eq_toLower r⟩
    · exact ((wildcard_of_ascii hr).1 hpercent).1
    · exact ((wildcard_of_ascii hr).2 hunderscore).1
  · rw [if_neg hr, (hcased.resolve_left hr).1]
    exact ⟨hpercent, hunderscore, rfl⟩

theorem Verbatim.upperRune {r : Char} (h : Verbatim r) :
    Go.upperRune r ≠ '%' ∧ Go.upperRune r ≠ '_' ∧ (Go.upperRune r).toLower = r.toLower := by
  obtain ⟨hpercent, hunderscore, hcased⟩ := h
  unfold Go.upperRune
  by_cases hr : Go.isASCII r = true
  · rw [if_pos hr]
    refine ⟨?_, ?_, Char.toLower_toUpper_eq_toLower r⟩
    · exact ((wildcard_of_ascii hr).1 hpercent).2
    · exact ((wildcard_of_ascii hr).2 hunderscore).2
  · rw [if_neg hr, (hcased.resolve_left hr).2]
    exact ⟨hpercent, hunderscore, rfl⟩

/-- A verbatim text in lower case is found in a column exactly where it occurs. -/
theorem likeAround_toLower {text col : String} (htext : ∀ r ∈ text.toList, Verbatim r) :
    likeAround (Go.toLower text) (sqlLower col) = true ↔ Occurs text.toList col := by
  rw [likeAround_iff, occurs_sqlLower]
  · unfold Occurs Go.toLower
    have hcase : text.toList.map (Char.toLower ∘ Go.lowerRune) = text.toList.map Char.toLower :=
      List.map_congr_left fun r hr => (htext r hr).lowerRune.2.2
    rw [String.toList_ofList, List.map_map, hcase]
  · intro r hr
    unfold Go.toLower at hr
    rw [String.toList_ofList] at hr
    obtain ⟨r', hr', rfl⟩ := List.mem_map.mp hr
    obtain ⟨hpercent, hunderscore, -⟩ := (htext r' hr').lowerRune
    exact ⟨hpercent, hunderscore⟩

/-- A verbatim text in upper case is found in a column exactly where it occurs. -/
theorem likeAround_toUpper {text col : String} (htext : ∀ r ∈ text.toList, Verbatim r) :
    likeAround (Go.toUpper text) (sqlUpper col) = true ↔ Occurs text.toList col := by
  rw [likeAround_iff, occurs_sqlUpper]
  · unfold Occurs Go.toUpper
    have hcase : text.toList.map (Char.toLower ∘ Go.upperRune) = text.toList.map Char.toLower :=
      List.map_congr_left fun r hr => (htext r hr).upperRune.2.2
    rw [String.toList_ofList, List.map_map, hcase]
  · intro r hr
    unfold Go.toUpper at hr
    rw [String.toList_ofList] at hr
    obtain ⟨r', hr', rfl⟩ := List.mem_map.mp hr
    obtain ⟨hpercent, hunderscore, -⟩ := (htext r' hr').upperRune
    exact ⟨hpercent, hunderscore⟩

/-- The text a search looks for: the query without the blanks around it. -/
def CertFilter.text (f : CertFilter) : String := Go.trimSpace f.query

/-- The text without its colons. -/
def CertFilter.bare (f : CertFilter) : String := Go.replaceRune f.text ':' []

/-- **Literal**: the text of the search occurs in a searched column. A serial is written without
colons, so the text is compared with it without its own. -/
def CertFilter.Literal (f : CertFilter) (c : Certificate) : Prop :=
  Occurs f.text.toList c.commonName ∨ Occurs f.text.toList c.subject ∨
    Occurs f.text.toList (encodeSANs c.sans) ∨ Occurs f.text.toList c.requestedBy ∨
    Occurs f.bare.toList c.serialHex ∨ Occurs f.text.toList c.fingerprint.text

omit [Go.Runtime] in
theorem toList_bare (f : CertFilter) : f.bare.toList = f.text.toList.filter (· ≠ ':') :=
  Go.toList_replaceRune_nil f.text ':'

/-- **What a search finds.** Where a text with a colon can be told apart from the fingerprint, a
verbatim text selects a certificate exactly when it occurs literally. -/
theorem queryMatches_iff {f : CertFilter} {c : Certificate}
    (htext : ∀ r ∈ f.text.toList, Verbatim r)
    (hcolon : ':' ∈ f.text.toList → ¬ Occurs f.text.toList c.fingerprint.text ∧
      ¬ Occurs f.bare.toList c.fingerprint.text) :
    f.queryMatches c = true ↔ f.Literal c := by
  have hbare : ∀ r ∈ f.bare.toList, Verbatim r := by
    intro r hr
    rw [toList_bare] at hr
    exact htext r (List.mem_filter.mp hr).1
  have hprint : Occurs f.bare.toList c.fingerprint.text ↔
      Occurs f.text.toList c.fingerprint.text := by
    by_cases h : ':' ∈ f.text.toList
    · exact iff_of_false (hcolon h).2 (hcolon h).1
    · rw [toList_bare, List.filter_eq_self.mpr]
      intro r hr
      exact decide_eq_true fun heq => h (heq ▸ hr)
  have hempty : f.text = "" → f.Literal c := by
    intro h
    refine .inl ?_
    rw [h]
    exact List.nil_infix
  have hmatches : f.queryMatches c = (f.text == "" ||
      likeAround (Go.toLower f.text) (sqlLower c.commonName) ||
      likeAround (Go.toLower f.text) (sqlLower c.subject) ||
      likeAround (Go.toLower f.text) (sqlLower (encodeSANs c.sans)) ||
      likeAround (Go.toLower f.text) (sqlLower c.requestedBy) ||
      likeAround (Go.toUpper f.bare) (sqlUpper c.serialHex) ||
      likeAround (Go.toUpper f.bare) (sqlUpper c.fingerprint.text)) := rfl
  rw [hmatches]
  simp only [Bool.or_eq_true, beq_iff_eq, likeAround_toLower htext, likeAround_toUpper hbare,
    hprint, or_assoc]
  exact or_iff_right_of_imp hempty

/-- Beside the query a search asks what it asks without one. -/
theorem selects_iff {f : CertFilter} {c : Certificate} {now : Time} :
    f.selects now c = true ↔
      f.queryMatches c = true ∧ ({ f with query := "" } : CertFilter).selects now c = true := by
  have hquery : ({ f with query := "" } : CertFilter).queryMatches c = true :=
    queryMatches_empty (show Go.trimSpace "" = "" by decide)
  unfold CertFilter.selects
  rw [hquery]
  simp only [Bool.and_eq_true, true_and]
  simp only [and_assoc]
  rfl

end Text

/-! ## The order of a search -/

section Order

variable {f : CertFilter} {a b c : Certificate}

/-- In no column are two rows before each other. -/
theorem before_asymm (h : f.before a b = true) : f.before b a = false := by
  unfold CertFilter.before at h ⊢
  split_ifs at h ⊢
  all_goals exact decide_eq_false (not_lt.mpr (le_of_lt (of_decide_eq_true h)))

/-- Between two rows, one before the other, no third one ties with both. -/
theorem before_or_before (h : f.before a c = true) :
    f.before a b = true ∨ f.before b c = true := by
  unfold CertFilter.before at h ⊢
  split_ifs at h ⊢
  all_goals
    rw [decide_eq_true_iff] at h
    rw [decide_eq_true_iff, decide_eq_true_iff]
    refine or_iff_not_imp_left.mpr fun hab => lt_of_le_of_lt (not_lt.mp hab) h

/-- The order of a search without its direction. -/
def CertFilter.upTo (f : CertFilter) (a b : Certificate) : Prop :=
  f.before a b = true ∨ f.before b a = false ∧ a.id ≤ b.id

theorem ordered_iff : f.ordered a b ↔ if f.sortDesc then f.upTo b a else f.upTo a b := by
  unfold CertFilter.ordered CertFilter.upTo
  split_ifs <;> rfl

theorem upTo_total (a b : Certificate) : f.upTo a b ∨ f.upTo b a := by
  cases hab : f.before a b with
  | true => exact .inl (.inl hab)
  | false =>
    cases hba : f.before b a with
    | true => exact .inr (.inl hba)
    | false => exact (le_total a.id b.id).imp (fun h => .inr ⟨hba, h⟩) (fun h => .inr ⟨hab, h⟩)

/-- Where a row may come first, the other is not before it. -/
theorem CertFilter.upTo.not_before (h : f.upTo a b) : ¬ f.before b a = true := by
  rw [Bool.not_eq_true]
  rcases h with hab | ⟨hba, -⟩
  · exact before_asymm hab
  · exact hba

theorem upTo_trans (hab : f.upTo a b) (hbc : f.upTo b c) : f.upTo a c := by
  by_cases hlt : f.before a c = true
  · exact .inl hlt
  · have hca : f.before c a = false := by
      rw [Bool.eq_false_iff]
      intro h
      exact (before_or_before h).elim hbc.not_before hab.not_before
    have hid (hx : f.upTo a b) : a.id ≤ b.id := by
      rcases hx with hx | ⟨-, hx⟩
      · exact ((before_or_before hx).elim hlt hbc.not_before).elim
      · exact hx
    have hid' (hx : f.upTo b c) : b.id ≤ c.id := by
      rcases hx with hx | ⟨-, hx⟩
      · exact ((before_or_before hx).elim hab.not_before hlt).elim
      · exact hx
    exact .inr ⟨hca, (hid hab).trans (hid' hbc)⟩

theorem upTo_antisymm (hab : f.upTo a b) (hba : f.upTo b a) : a.id = b.id := by
  have hle : a.id ≤ b.id := hab.elim (fun h => absurd h hba.not_before) And.right
  have hge : b.id ≤ a.id := hba.elim (fun h => absurd h hab.not_before) And.right
  exact le_antisymm hle hge

instance (f : CertFilter) : Std.Total f.ordered where
  total a b := by
    rw [ordered_iff, ordered_iff]
    split_ifs
    · exact upTo_total b a
    · exact upTo_total a b

instance (f : CertFilter) : IsTrans Certificate f.ordered where
  trans a b c hab hbc := by
    rw [ordered_iff] at hab hbc ⊢
    split_ifs at hab hbc ⊢
    · exact upTo_trans hbc hab
    · exact upTo_trans hab hbc

/-- Two rows that may come in either order have one key. -/
theorem ordered_antisymm (hab : f.ordered a b) (hba : f.ordered b a) : a.id = b.id := by
  rw [ordered_iff] at hab hba
  split_ifs at hab hba
  · exact upTo_antisymm hba hab
  · exact upTo_antisymm hab hba

/-- **The order leaves no choice**: rows of one table are sorted in one way only. -/
theorem eq_of_sorted {t : Sql.Table Certificate} {l l' : List Certificate}
    (hl : ∀ c ∈ l, c ∈ t.rows) (hperm : l.Perm l') (hsorted : l.Pairwise f.ordered)
    (hsorted' : l'.Pairwise f.ordered) : l = l' := by
  refine hperm.eq_of_pairwise ?_ hsorted hsorted'
  intro a b ha hb hab hba
  exact Sql.Table.eq_of_key_eq (hl a ha) (hl b (hperm.mem_iff.mpr hb)) (ordered_antisymm hab hba)

end Order

/-! ## The pages of a search -/

section Pages

variable [Go.Runtime] {f : CertFilter}

/-- How many rows a page has. -/
def CertFilter.pageSize (f : CertFilter) : Nat := (if f.limit ≤ 0 then 50 else f.limit).toNat

/-- The search for a page of the matches, counted from zero. -/
def CertFilter.pageNumber (f : CertFilter) (k : Nat) : CertFilter :=
  { f with offset := (k * f.pageSize : Nat) }

/-- Walk the first pages of a search, one call after the other. -/
def walkPages (f : CertFilter) : Nat → Handler Go.Error (List Certificate)
  | 0 => pure []
  | n + 1 => do
    let seen ← walkPages f n
    let (page, _) ← searchCertificates (f.pageNumber n)
    pure (seen ++ page)

/-- The matches of a search in its order. -/
def CertFilter.matches (f : CertFilter) (now : Time) (rows : List Certificate) :
    List Certificate := (rows.filter (f.selects now)).insertionSort f.ordered

theorem page_pageNumber (k : Nat) (now : Time) (rows : List Certificate) :
    (f.pageNumber k).page now rows =
      ((f.matches now rows).drop (k * f.pageSize)).take f.pageSize := by
  unfold CertFilter.page
  rw [show (f.pageNumber k).offset.toNat = k * f.pageSize from Int.toNat_natCast _]
  rfl

/-- What is selected at two instants is found in the same order. -/
theorem matches_congr {t t' : Time} {rows : List Certificate}
    (h : ∀ c ∈ rows, f.selects t c = f.selects t' c) : f.matches t rows = f.matches t' rows := by
  unfold CertFilter.matches
  rw [List.filter_congr h]

/-- A match is a row that the search selects. -/
theorem mem_of_mem_matches {now : Time} {rows : List Certificate} {c : Certificate}
    (h : c ∈ f.matches now rows) : c ∈ rows ∧ f.selects now c = true :=
  List.mem_filter.mp ((List.mem_insertionSort _).mp h)

/-- A row matches once. -/
theorem nodup_matches (f : CertFilter) (now : Time) (t : Sql.Table Certificate) :
    ((f.matches now t.rows).map (·.id)).Nodup := by
  refine (((List.perm_insertionSort _ _).map _).nodup_iff).mpr ?_
  exact t.distinct.sublist (List.filter_sublist.map _)

variable {w w' : World}

attribute [local irreducible] Interleave.Prog.Returns

/-- **What a search returns**: at some time of the clock its page and how many rows it selects. -/
theorem searchCertificates_returns {q : Env → Bool} {r : List Certificate × Nat}
    (h : (searchCertificates f).Returns (Sem.under exec q) w (.ok r) w') :
    w' = w ∧ ∃ e, q e = true ∧
      r = (f.page e.now w.ca.certificates.rows, w.ca.certificates.count (f.selects e.now)) := by
  unfold searchCertificates at h
  obtain ⟨t, w₁, ht, h⟩ := returns_bind.mp h
  obtain ⟨total, w₂, htotal, h⟩ := returns_bind.mp h
  obtain ⟨page, w₃, hpage, h⟩ := returns_bind.mp h
  obtain ⟨rfl, rfl⟩ := returns_pure.mp h
  obtain ⟨e, he, rfl⟩ := now_under ht
  obtain ⟨-, rfl⟩ := now_returns.mp ht.of_under
  obtain ⟨_, _, hcount, hw⟩ := ca_returns htotal.of_under
  obtain rfl : w₂ = w := hw
  obtain ⟨_, _, hrows, hw⟩ := ca_returns hpage.of_under
  obtain rfl : w₃ = w₂ := hw
  exact ⟨rfl, e, he, congrArg₂ Prod.mk (Except.ok.inj hrows).symm (Except.ok.inj hcount).symm⟩

/-- A walk collects the front of the matches, page by page. -/
theorem walkPages_returns {q : Env → Bool} {t : Time} {n : Nat} {l : List Certificate}
    (hq : ∀ e, q e = true → ∀ c ∈ w.ca.certificates.rows, f.selects e.now c = f.selects t c)
    (h : (walkPages f n).Returns (Sem.under exec q) w (.ok l) w') :
    w' = w ∧ l = (f.matches t w.ca.certificates.rows).take (n * f.pageSize) := by
  induction n generalizing l w' with
  | zero =>
    obtain ⟨rfl, rfl⟩ := returns_pure.mp h
    exact ⟨rfl, by rw [Nat.zero_mul, List.take_zero]⟩
  | succ n ih =>
    obtain ⟨seen, w₁, hseen, h⟩ := returns_bind.mp h
    obtain ⟨rfl, rfl⟩ := ih hseen
    obtain ⟨r, w₂, hr, h⟩ := returns_bind.mp h
    obtain ⟨rfl, e, he, rfl⟩ := searchCertificates_returns hr
    obtain ⟨rfl, rfl⟩ := returns_pure.mp h
    refine ⟨rfl, ?_⟩
    rw [page_pageNumber, matches_congr (hq e he), Nat.succ_mul, List.take_add]

/-- In a steady run the pages are returned. -/
theorem returns_walkPages {t : Time} (ht : 0 < t) (n : Nat) (w : World) :
    ∃ l, (walkPages f n).Returns (Sem.under exec (steady (· == t))) w (.ok l) w := by
  induction n with
  | zero => exact ⟨[], returns_pure.mpr ⟨rfl, rfl⟩⟩
  | succ n ih =>
    obtain ⟨seen, hseen⟩ := ih
    have hsearch : (searchCertificates (f.pageNumber n)).Returns
        (Sem.under exec (steady (· == t))) w
        (.ok ((f.pageNumber n).page t w.ca.certificates.rows,
          w.ca.certificates.count ((f.pageNumber n).selects t))) w := by
      refine returns_bind.mpr ⟨t, w, returns_now ht (beq_self_eq_true t), ?_⟩
      refine returns_bind.mpr ⟨_, w, returns_ca 0 "" ht (beq_self_eq_true t) rfl, ?_⟩
      exact returns_bind.mpr ⟨_, w, returns_ca 0 "" ht (beq_self_eq_true t) rfl,
        returns_pure.mpr ⟨rfl, rfl⟩⟩
    exact ⟨_, returns_bind.mpr ⟨seen, w, hseen,
      returns_bind.mpr ⟨_, w, hsearch, returns_pure.mpr ⟨rfl, rfl⟩⟩⟩⟩

end Pages

section Colon

attribute [local instance] Go.asciiRuntime

/-- The columns a free text is compared with. -/
def Certificate.searched (c : Certificate) : List String :=
  [c.commonName, c.subject, encodeSANs c.sans, c.requestedBy, c.serialHex, c.fingerprint.text]

end Colon

end Goca.Store
