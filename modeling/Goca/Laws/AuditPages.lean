import Mathlib.Data.List.Perm.Subperm
import Mathlib.Data.List.Nodup
import Mathlib.Logic.Relation
import Goca.Web.Audit

/-!
# Reading the audit log page by page

A client asks for the first page and then for the page behind the cursor of the last one, until the
cursor is empty. Entries appended meanwhile have larger keys than any cursor, so they never show.
What can be lost is the end of the log: the handler compares the length of a page with the limit it
was asked for, the store has selected by a limit of its own, and where the two differ the first page
has no cursor.
-/

set_option autoImplicit false

namespace Goca.Web

open Goca.Store
open Sql (Table)

/-! ## Following the cursors -/

/-- A log grows by appended entries. -/
def Grows : AuditLog → AuditLog → Prop := Relation.ReflTransGen fun l l' =>
  ∃ now actor action target detail ip, (l.audit now actor action target detail ip).2 = l'

/-- What a client collects that follows the cursors: request `i` is answered from the log `logs i`.
A request whose query failed brings no page and is made again. -/
def follow (limit : String) (logs : Nat → AuditLog) :
    Nat → Nat → String → Option (List AuditEntry)
  | 0, _, _ => none
  | fuel + 1, i, cursor =>
    match apiAudit none (logs i) limit cursor with
    | .error _ => none
    | .ok page =>
      if page.nextCursor = "" then some page.entries
      else (follow limit logs fuel (i + 1) page.nextCursor).map (page.entries ++ ·)

/-- **Pagination is lossless**: the cursors come to an end, and the pages hold every entry that
existed at the first request exactly once, in strictly descending order. -/
def Lossless (limit : String) (logs : Nat → AuditLog) : Prop :=
  ∃ fuel entries, follow limit logs fuel 0 "" = some entries ∧
    (∀ a ∈ (logs 0).table.rows, entries.count a = 1) ∧
    entries.Pairwise fun a b => b.id < a.id

/-- The limit is one that the store does not change, or one page holds the whole log. -/
def FitsPages (limit : String) (l : AuditLog) : Prop :=
  (1 ≤ atoiDefault limit 100 ∧ atoiDefault limit 100 ≤ 1000) ∨
    (l.table.rows.length : Int) ≤ clampLimit (atoiDefault limit 100)

/-! ## The log -/

section Log

variable {l l' : AuditLog}

/-- The entries of a log, newest first. -/
def newest (l : AuditLog) : List AuditEntry := l.table.rows.reverse

theorem newest_descending (l : AuditLog) :
    (newest l).Pairwise fun a b => b.id < a.id :=
  List.pairwise_reverse.mpr l.ascending

/-- **What growth keeps**: the log is the log before and, behind it, entries with new keys. -/
theorem grows_rows (h : Grows l l') : ∃ more, l'.table.rows = l.table.rows ++ more ∧
    (∀ a ∈ more, l.table.seq < a.id) ∧ l.table.seq ≤ l'.table.seq := by
  induction h with
  | refl => exact ⟨[], (List.append_nil _).symm, fun _ ha => absurd ha List.not_mem_nil, le_refl _⟩
  | @tail k l' _ hstep ih =>
    obtain ⟨more, hrows, hnew, hseq⟩ := ih
    obtain ⟨now, actor, action, target, detail, ip, rfl⟩ := hstep
    unfold AuditLog.audit
    split
    · refine ⟨more ++ [⟨k.table.seq + 1, now, actor, action, target, detail, ip⟩], ?_, ?_, ?_⟩
      · show k.table.rows ++ _ = _
        rw [hrows, List.append_assoc]
      · intro a ha
        rcases List.mem_append.mp ha with ha | ha
        · exact hnew a ha
        · rw [List.mem_singleton.mp ha]
          exact Nat.lt_succ_of_le hseq
      · exact Nat.le_succ_of_le hseq
    · exact ⟨more, hrows, hnew, hseq⟩

/-- What a page behind an entry of the log selects, whatever was appended since. -/
theorem select_behind (h : Grows l l') {a : AuditEntry} (ha : a ∈ l.table.rows) (limit : Int) :
    l'.select a.id limit =
      ((newest l).filter fun b => b.id < a.id).take (clampLimit limit).toNat := by
  obtain ⟨more, hrows, hnew, -⟩ := grows_rows h
  have hpos : (0 : Int) < a.id := by
    have hid := l.positive a ha
    omega
  have hbound : a.id ≤ l.table.seq := l.table.bounded a ha
  have hnone : (more.filter fun b => b.id < a.id) = [] := by
    refine List.filter_eq_nil_iff.mpr fun b hb => ?_
    have hlarger := hnew b hb
    simp only [decide_eq_true_eq]
    omega
  unfold AuditLog.select newest
  simp only [if_pos hpos, hrows, Int.ofNat_lt, List.filter_append, hnone, List.append_nil,
    List.filter_reverse]

/-- Behind the last of the first `k` entries are all but these. -/
theorem filter_behind {k : Nat} {a : AuditEntry} {entries : List AuditEntry}
    (hdesc : entries.Pairwise fun a b => b.id < a.id) (ha : (entries.take k).getLast? = some a) :
    (entries.filter fun b => b.id < a.id) = entries.drop k := by
  have hsplit := (List.take_append_drop k entries).symm
  rw [hsplit, List.pairwise_append] at hdesc
  obtain ⟨hfirst, -, hacross⟩ := hdesc
  have hmem : a ∈ entries.take k := List.mem_of_getLast? ha
  have hkept : (entries.drop k).filter (fun b => b.id < a.id) = entries.drop k :=
    List.filter_eq_self.mpr fun b hb => decide_eq_true (hacross a hmem b hb)
  have hgone : (entries.take k).filter (fun b => b.id < a.id) = [] := by
    refine List.filter_eq_nil_iff.mpr fun b hb => ?_
    obtain ⟨front, hfront⟩ := List.getLast?_eq_some_iff.mp ha
    rw [hfront] at hb hfirst
    rw [List.pairwise_append] at hfirst
    simp only [decide_eq_true_eq, not_lt]
    rcases List.mem_append.mp hb with hb | hb
    · exact Nat.le_of_lt (hfirst.2.2 b hb a List.mem_cons_self)
    · rw [List.mem_singleton.mp hb]
  conv_lhs => rw [hsplit]
  rw [List.filter_append, hgone, hkept, List.nil_append]

end Log

/-! ## Pages -/

section Pages

variable {logs : Nat → AuditLog} {limit : String} {n : Nat}

/-- A log has grown since the first request. -/
theorem grows_upto (h : ∀ i, Grows (logs i) (logs (i + 1))) (i : Nat) :
    Grows (logs 0) (logs i) := by
  induction i with
  | zero => exact .refl
  | succ i ih => exact ih.trans (h i)

/-- A cursor is read as the key that it was made of. -/
theorem atoiDefault_cursor {id : Nat} (h : id ≤ maxKey) : atoiDefault (toString id) 0 = id := by
  have hfits : id < 2 ^ 63 := Nat.lt_succ_of_le h
  unfold atoiDefault
  rw [if_neg (Go.toString_ne_empty id), Go.trimSpace_toString, Go.parseInt_toString hfits]
  rfl

/-- The cursor behind a page of as many entries as were asked for. -/
theorem nextCursor_of_full {page : List AuditEntry} (hlength : page.length = n) {a : AuditEntry}
    (ha : page.getLast? = some a) : nextCursor page n = toString a.id := by
  unfold nextCursor
  rw [ha, hlength]
  exact if_pos rfl

/-- A page of fewer entries has no cursor behind it. -/
theorem nextCursor_of_ne {page : List AuditEntry} {limit : Int}
    (hlength : (page.length : Int) ≠ limit) : nextCursor page limit = "" := by
  unfold nextCursor
  cases page.getLast? with
  | none => rfl
  | some a => exact if_neg hlength

/-- The answer to a request, by the page that the store selects for it. -/
theorem apiAudit_page {l : AuditLog} {cursor : String} {page : List AuditEntry}
    (hpage : l.select (atoiDefault cursor 0) (atoiDefault limit 100) = page) :
    apiAudit none l limit cursor = .ok ⟨page, nextCursor page (atoiDefault limit 100)⟩ := by
  subst hpage
  rfl

/-- **The last request** of a client: its page has no cursor behind it. -/
theorem follow_last {cursor : String} {i fuel : Nat} {page : List AuditEntry}
    (hpage : (logs i).select (atoiDefault cursor 0) (atoiDefault limit 100) = page)
    (hcursor : nextCursor page (atoiDefault limit 100) = "") :
    follow limit logs (fuel + 1) i cursor = some page := by
  rw [follow, apiAudit_page hpage]
  exact if_pos hcursor

/-- **Any other request**: the client goes on behind the last entry of the page. -/
theorem follow_next {cursor : String} {i fuel : Nat} {page : List AuditEntry} {a : AuditEntry}
    (hpage : (logs i).select (atoiDefault cursor 0) (atoiDefault limit 100) = page)
    (hlength : (page.length : Int) = atoiDefault limit 100) (ha : page.getLast? = some a) :
    follow limit logs (fuel + 1) i cursor =
      (follow limit logs fuel (i + 1) (toString a.id)).map (page ++ ·) := by
  have hcursor : nextCursor page (atoiDefault limit 100) = toString a.id := by
    rw [← hlength]
    exact nextCursor_of_full rfl ha
  rw [follow, apiAudit_page hpage]
  refine (if_neg ?_).trans ?_
  · rw [hcursor]
    exact Go.toString_ne_empty a.id
  · rw [hcursor]

/-- **The rest of a log.** A client that has read the first `k` entries, and whose next page is what
follows them, reads all that follows. -/
theorem follow_rest (hgrows : ∀ i, Grows (logs i) (logs (i + 1)))
    (hlimit : atoiDefault limit 100 = n) (hpos : 0 < n) (hmost : n ≤ 1000) (left : Nat) :
    ∀ {k i : Nat} {cursor : String},
      (newest (logs 0)).length - k ≤ left →
      (logs i).select (atoiDefault cursor 0) n = ((newest (logs 0)).drop k).take n →
      ∃ fuel, follow limit logs fuel i cursor = some ((newest (logs 0)).drop k) := by
  have hclamp : (clampLimit n).toNat = n := by
    unfold clampLimit
    rw [if_neg (by omega), if_neg (by omega), Int.toNat_natCast]
  induction left with
  | zero =>
    intro k i cursor hleft hpage
    have hnil : (newest (logs 0)).drop k = [] := List.drop_eq_nil_of_le (by omega)
    rw [hnil, List.take_nil, ← hlimit] at hpage
    rw [hnil]
    exact ⟨1, follow_last hpage rfl⟩
  | succ left ih =>
    intro k i cursor hleft hpage
    rw [← hlimit] at hpage
    have hlength : (((newest (logs 0)).drop k).take n).length =
        min n ((newest (logs 0)).length - k) := by
      rw [List.length_take, List.length_drop]
    by_cases hfull : n ≤ (newest (logs 0)).length - k
    · rw [min_eq_left hfull] at hlength
      have hne : ((newest (logs 0)).drop k).take n ≠ [] :=
        List.ne_nil_of_length_pos (by omega)
      have hlast := List.getLast?_eq_some_getLast hne
      generalize List.getLast _ hne = a at hlast
      have hmem : a ∈ newest (logs 0) :=
        List.mem_of_mem_drop (List.mem_of_mem_take (List.mem_of_getLast? hlast))
      have hrow : a ∈ (logs 0).table.rows := List.mem_reverse.mp hmem
      have htaken : ((newest (logs 0)).take (k + n)).getLast? = some a := by
        rw [List.take_add, List.getLast?_append, hlast]
        rfl
      have hbound : a.id ≤ maxKey := le_trans ((logs 0).table.bounded a hrow) (logs 0).fits
      have hbehind : (logs (i + 1)).select (atoiDefault (toString a.id) 0) n =
          ((newest (logs 0)).drop (k + n)).take n := by
        rw [atoiDefault_cursor hbound, select_behind (grows_upto hgrows (i + 1)) hrow,
          filter_behind (newest_descending _) htaken, hclamp]
      obtain ⟨fuel, hfuel⟩ := ih (by omega) hbehind
      refine ⟨fuel + 1, ?_⟩
      rw [follow_next hpage (by rw [hlength, hlimit]) hlast, hfuel, Option.map_some,
        ← List.drop_drop, List.take_append_drop]
    · rw [min_eq_right (by omega)] at hlength
      refine ⟨1, ?_⟩
      rw [follow_last hpage (nextCursor_of_ne (by rw [hlength, hlimit]; omega))]
      rw [List.take_of_length_le (by rw [List.length_drop]; omega)]

end Pages

/-! ## The law -/

section Law

variable {logs : Nat → AuditLog} {limit : String}

/-- The whole log, newest first, holds each of its entries once. -/
theorem lossless_of_newest {fuel : Nat}
    (h : follow limit logs fuel 0 "" = some (newest (logs 0))) : Lossless limit logs := by
  refine ⟨fuel, _, h, ?_, newest_descending _⟩
  intro a ha
  have hnodup : (newest (logs 0)).Nodup :=
    (newest_descending (logs 0)).imp fun hlt heq => by rw [heq] at hlt; exact lt_irrefl _ hlt
  exact List.count_eq_one_of_mem hnodup (List.mem_reverse.mpr ha)

/-- The limit of a page: the one that was asked for where it lies between 1 and 1000. -/
theorem clampLimit_of_served {limit : Int} (h : 1 ≤ limit ∧ limit ≤ 1000) :
    clampLimit limit = limit := by
  unfold clampLimit
  rw [if_neg (by omega), if_neg (by omega)]

/-- Otherwise a page is short of the limit that was asked for, or that limit is not positive. -/
theorem clampLimit_of_not_served {limit : Int} (h : ¬ (1 ≤ limit ∧ limit ≤ 1000)) :
    0 < clampLimit limit ∧ (limit ≤ 0 ∨ clampLimit limit < limit) := by
  unfold clampLimit
  by_cases hpos : limit ≤ 0
  · rw [if_pos hpos]
    exact ⟨by decide, .inl hpos⟩
  · rw [if_neg hpos, if_pos (by omega)]
    exact ⟨by decide, .inr (by omega)⟩

/-- A page under a limit that the store changes has no cursor behind it. -/
theorem nextCursor_of_not_served {page : List AuditEntry} {limit : Int}
    (h : ¬ (1 ≤ limit ∧ limit ≤ 1000)) (hlength : page.length ≤ (clampLimit limit).toNat) :
    nextCursor page limit = "" := by
  obtain ⟨hpos, hlimit⟩ := clampLimit_of_not_served h
  cases page with
  | nil => rfl
  | cons a page =>
    apply nextCursor_of_ne
    rw [List.length_cons] at hlength ⊢
    rcases hlimit with hlimit | hlimit
    · omega
    · omega

/-- With such a limit the client sees the first page only. -/
theorem follow_first (h : ¬ (1 ≤ atoiDefault limit 100 ∧ atoiDefault limit 100 ≤ 1000))
    (fuel : Nat) : follow limit logs (fuel + 1) 0 "" =
      some ((newest (logs 0)).take (clampLimit (atoiDefault limit 100)).toNat) := by
  have hpage : (logs 0).select (atoiDefault "" 0) (atoiDefault limit 100) =
      (newest (logs 0)).take (clampLimit (atoiDefault limit 100)).toNat := rfl
  exact follow_last hpage (nextCursor_of_not_served h (List.length_take_le _ _))

/-- A page that is shorter than the log loses entries. -/
theorem not_lossless_of_short {page : Nat}
    (hfollow : ∀ fuel, follow limit logs (fuel + 1) 0 "" =
      some ((newest (logs 0)).take page))
    (hshort : page < (logs 0).table.rows.length) : ¬ Lossless limit logs := by
  rintro ⟨fuel, entries, hentries, honce, -⟩
  cases fuel with
  | zero => cases hentries
  | succ fuel =>
    rw [hfollow fuel, Option.some.injEq] at hentries
    subst hentries
    have hall : (logs 0).table.rows ⊆ (newest (logs 0)).take page := fun a ha =>
      List.count_pos_iff.mp (by rw [honce a ha]; exact Nat.one_pos)
    have hnodup : (logs 0).table.rows.Nodup := .of_map _ (logs 0).table.distinct
    have hlength := (hnodup.subperm hall).length_le
    rw [List.length_take] at hlength
    omega

/-- **Following the cursors loses nothing** exactly under those limits that the store takes as they
are, or where one page holds the log. -/
theorem auditPages_lossless (hgrows : ∀ i, Grows (logs i) (logs (i + 1))) :
    Lossless limit logs ↔ FitsPages limit (logs 0) := by
  have hrows : (newest (logs 0)).length = (logs 0).table.rows.length := List.length_reverse
  by_cases hserved : 1 ≤ atoiDefault limit 100 ∧ atoiDefault limit 100 ≤ 1000
  · refine ⟨fun _ => .inl hserved, fun _ => ?_⟩
    obtain ⟨n, hn⟩ := Int.eq_ofNat_of_zero_le (a := atoiDefault limit 100) (by omega)
    have hfirst : (logs 0).select (atoiDefault "" 0) n =
        ((newest (logs 0)).drop 0).take n := by
      have hpage : (logs 0).select 0 n = (newest (logs 0)).take (clampLimit n).toNat := rfl
      rw [clampLimit_of_served (by omega), Int.toNat_natCast] at hpage
      rw [List.drop_zero]
      exact hpage
    obtain ⟨fuel, hfuel⟩ := follow_rest hgrows hn (by omega) (by omega) _ (Nat.le_refl _) hfirst
    exact lossless_of_newest hfuel
  · have hpos := (clampLimit_of_not_served hserved).1
    constructor
    · intro hlossless
      by_contra hfits
      unfold FitsPages at hfits
      exact not_lossless_of_short (follow_first hserved) (by omega) hlossless
    · rintro (h | hfits)
      · exact absurd h hserved
      · have hfollow : follow limit logs 1 0 "" = _ := follow_first hserved 0
        rw [List.take_of_length_le (by omega)] at hfollow
        exact lossless_of_newest hfollow

/-- A log of so many entries. -/
def logOf : Nat → AuditLog
  | 0 => .empty
  | n + 1 => ((logOf n).audit 0 "admin" "cert.issue" "" "" "").2

theorem length_logOf {n : Nat} (h : n ≤ maxKey) :
    (logOf n).table.rows.length = n ∧ (logOf n).table.seq = n := by
  induction n with
  | zero => exact ⟨rfl, rfl⟩
  | succ n ih =>
    obtain ⟨hlength, hseq⟩ := ih (by omega)
    have hroom : (logOf n).table.seq < maxKey := by omega
    rw [logOf, AuditLog.audit, dif_pos hroom]
    refine ⟨?_, congrArg (· + 1) hseq⟩
    show ((logOf n).table.rows ++ [_]).length = n + 1
    rw [List.length_append, hlength, List.length_singleton]

/-- Three entries are read in pages of two, whatever is appended after the first. -/
theorem pagesOfTwo_lossless : Lossless "2" fun i => logOf (3 + i) :=
  (auditPages_lossless fun _ => .single ⟨_, _, _, _, _, _, rfl⟩).mpr (.inl (by decide +kernel))

/-- With a limit of 5000 a log of 1001 entries loses one. -/
theorem limitTooLarge_loses : ¬ ∀ limit logs, (∀ i, Grows (logs i) (logs (i + 1))) →
    Lossless limit logs := by
  intro hall
  have hlimit : atoiDefault "5000" 100 = 5000 := by decide +kernel
  obtain ⟨l, hl⟩ : ∃ l : AuditLog, l.table.rows.length = 1001 :=
    ⟨logOf 1001, (length_logOf (by decide)).1⟩
  have hserved : ¬ (1 ≤ atoiDefault "5000" 100 ∧ atoiDefault "5000" 100 ≤ 1000) := by
    rw [hlimit]
    decide
  have hshort : (clampLimit (atoiDefault "5000" 100)).toNat < l.table.rows.length := by
    rw [hlimit, hl]
    decide
  have hlossless := hall "5000" (fun _ => l) fun _ => .refl
  exact not_lossless_of_short (follow_first hserved) hshort hlossless

end Law

end Goca.Web
