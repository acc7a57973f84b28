import Goca.Laws.AuthorityTable
import Goca.Laws.Returned

/-!
# The default authority

A request that names no authority is served by the default one. The query for it takes the active
authorities with a key, those with the marker first and the older ones first among the rest, and
does not look at the dates. `checkCanIssue` does, afterwards, so the default authority keeps its
place when it has expired, and every request without an authority is refused while another one
could serve it.
-/

set_option autoImplicit false

namespace Goca

open Go (Time)
open Goca.Store
open Interleave (Act Sem Pool)
open Sql (Table)

/-! ## What the default should be -/

/-- The order in which a default is looked for: the marked ones first, then by age. -/
def Precedes (a b : CA) : Prop :=
  a.isDefault = true ∧ b.isDefault = false ∨ a.isDefault = b.isDefault ∧ a.id < b.id

instance (a b : CA) : Decidable (Precedes a b) := by
  unfold Precedes; infer_instance

/-- An authority that passes `checkCanIssue`. -/
def Usable (t : Time) (c : CA) : Prop := Ca.canIssue t c = .ok ()

/-- **Unblocked**: before each expired authority that is active and has a key there is one that can
issue, unless none can. -/
def Unblocked (t : Time) (cas : Table CA) : Prop :=
  (∃ d ∈ cas.rows, d.issuing = true ∧ d.expired t = false) →
    ∀ c ∈ cas.rows, c.issuing = true → c.expired t = true →
      ∃ d ∈ cas.rows, d.issuing = true ∧ d.expired t = false ∧ Precedes d c

theorem usable_iff {t : Time} {c : CA} :
    Usable t c ↔ c.issuing = true ∧ c.expired t = false := by
  unfold Usable Ca.canIssue CA.issuing
  rw [Bool.and_eq_true, beq_iff_eq]
  constructor
  · intro h
    split at h
    · cases h
    split at h
    · cases h
    next hkey =>
    split at h
    · cases h
    next hactive =>
    split at h
    · cases h
    next hlive =>
    exact ⟨⟨by simpa using hkey, not_not.mp hactive⟩, by simpa using hlive⟩
  · rintro ⟨⟨hkey, hactive⟩, hlive⟩
    rw [hactive, hkey, hlive]
    rfl

/-- No authority precedes one that precedes it. -/
theorem Precedes.asymm {a b : CA} (h : Precedes a b) : ¬ Precedes b a := by
  rintro (⟨hb, ha⟩ | ⟨hmark, hid⟩)
  · rcases h with ⟨ha', -⟩ | ⟨hmark', -⟩
    · rw [ha] at ha'
      cases ha'
    · rw [ha, hb] at hmark'
      cases hmark'
  · rcases h with ⟨ha, hb⟩ | ⟨-, hid'⟩
    · rw [ha, hb] at hmark
      cases hmark
    · omega

/-- The row that the query for the default finds. -/
def defaultRow (cas : Table CA) : Option CA :=
  ((cas.rows.filter CA.issuing).find? (·.isDefault)).or (cas.rows.filter CA.issuing).head?

/-- It comes first among the active authorities with a key. -/
theorem first_of_defaultRow {cas : Table CA} {d : CA} (hasc : cas.Ascending)
    (h : defaultRow cas = some d) :
    d ∈ cas.rows ∧ d.issuing = true ∧
      ∀ c ∈ cas.rows, c.issuing = true → c = d ∨ Precedes d c := by
  have hsorted : (cas.rows.filter CA.issuing).Pairwise fun a b => a.id < b.id := hasc.filter _
  have hmem (c : CA) (hc : c ∈ cas.rows) (hissuing : c.issuing = true) :
      c ∈ cas.rows.filter CA.issuing := List.mem_filter.mpr ⟨hc, hissuing⟩
  unfold defaultRow at h
  cases hfind : (cas.rows.filter CA.issuing).find? (·.isDefault) with
  | some d' =>
    rw [hfind, Option.some_or] at h
    obtain rfl := Option.some.inj h
    obtain ⟨hmark, before, after, hsplit, hbefore⟩ := List.find?_eq_some_iff_append.mp hfind
    obtain ⟨hd, hissuing⟩ := List.mem_filter.mp (List.mem_of_find?_eq_some hfind)
    refine ⟨hd, hissuing, ?_⟩
    intro c hc hci
    have hc := hmem c hc hci
    rw [hsplit] at hc hsorted
    rcases List.mem_append.mp hc with hc | hc
    · exact .inr (.inl ⟨hmark, by simpa using hbefore c hc⟩)
    rcases List.mem_cons.mp hc with rfl | hc
    · exact .inl rfl
    have hid := (List.pairwise_cons.mp (List.pairwise_append.mp hsorted).2.1).1 c hc
    cases hcmark : c.isDefault with
    | true => exact .inr (.inr ⟨hmark.trans hcmark.symm, hid⟩)
    | false => exact .inr (.inl ⟨hmark, hcmark⟩)
  | none =>
    rw [hfind, Option.none_or] at h
    obtain ⟨rest, hsplit⟩ := List.head?_eq_some_iff.mp h
    have hplain := List.find?_eq_none.mp hfind
    obtain ⟨hd, hissuing⟩ := List.mem_filter.mp (List.mem_of_mem_head? h)
    refine ⟨hd, hissuing, ?_⟩
    intro c hc hci
    have hc := hmem c hc hci
    have hcmark : c.isDefault = false := by simpa using hplain c hc
    have hdmark : d.isDefault = false := by simpa using hplain d (hmem d hd hissuing)
    rw [hsplit] at hc hsorted
    rcases List.mem_cons.mp hc with rfl | hc
    · exact .inl rfl
    exact .inr (.inr ⟨hdmark.trans hcmark.symm, (List.pairwise_cons.mp hsorted).1 c hc⟩)

/-- Where an authority is active and has a key, the query finds one. -/
theorem exists_defaultRow {cas : Table CA} {c : CA} (hc : c ∈ cas.rows)
    (hissuing : c.issuing = true) : ∃ d, defaultRow cas = some d := by
  have hmem : c ∈ cas.rows.filter CA.issuing := List.mem_filter.mpr ⟨hc, hissuing⟩
  obtain ⟨d, hd⟩ := Option.isSome_iff_exists.mp (List.isSome_head?.mpr (List.ne_nil_of_mem hmem))
  unfold defaultRow
  rw [hd]
  cases (cas.rows.filter CA.issuing).find? (·.isDefault) with
  | none => exact ⟨d, rfl⟩
  | some d' => exact ⟨d', rfl⟩

section Resolution

variable [Go.Runtime] {w w' : World} {t : Time}

/-- **Found usable**: where some authority passes `checkCanIssue`, so does the one that a reference
without a text is resolved to. -/
def FoundUsable (w : World) (t : Time) : Prop :=
  (∃ c ∈ w.ca.cas.rows, Usable t c) → ∀ ref, Go.trimSpace ref = "" →
    (∃ r w', (getCAByRef ref).Returns (Sem.under exec (steady (· == t))) w r w') ∧
      ∀ r w', (getCAByRef ref).Returns (Sem.under exec (steady (· == t))) w r w' →
        ∃ c, r = .ok c ∧ Usable t c

/-- A reference without a text is resolved to the row that the query finds. -/
theorem getCAByRef_default {ref : String} (href : Go.trimSpace ref = "") {r : Except Go.Error CA}
    (h : (getCAByRef ref).Returns (Sem.under exec (steady (· == t))) w r w') :
    r = row (.ok (defaultRow w.ca.cas)) := by
  unfold getCAByRef at h
  rw [href, if_pos rfl] at h
  obtain ⟨r', hr', rfl⟩ := Interleave.Act.returns_mapResult.mp h
  obtain ⟨e, -, rfl, -⟩ := ca_steady hr'
  rfl

theorem returns_getCAByRef_default {ref : String} (href : Go.trimSpace ref = "") (ht : 0 < t) :
    (getCAByRef ref).Returns (Sem.under exec (steady (· == t))) w
      (row (.ok (defaultRow w.ca.cas))) w := by
  unfold getCAByRef
  rw [href, if_pos rfl]
  exact Interleave.Act.returns_mapResult.mpr
    ⟨_, returns_ca 0 "" ht (beq_self_eq_true t) rfl, rfl⟩

/-- In a table in the order of its keys the default is usable exactly when nothing blocks it. -/
theorem foundUsable_iff (ht : 0 < t) (hasc : w.ca.cas.Ascending) :
    FoundUsable w t ↔ Unblocked t w.ca.cas := by
  constructor
  · rintro h ⟨d, hd, hissuing, hlive⟩ c hc hci hexpired
    obtain ⟨⟨r, w', hr⟩, hall⟩ := h ⟨d, hd, usable_iff.mpr ⟨hissuing, hlive⟩⟩ "" (by decide)
    obtain ⟨e, rfl, he⟩ := hall r w' hr
    obtain ⟨d', hdefault⟩ := exists_defaultRow hd hissuing
    have hrow := getCAByRef_default (by decide) hr
    rw [hdefault] at hrow
    obtain rfl : e = d' := Except.ok.inj hrow
    obtain ⟨hmem, hei, hfirst⟩ := first_of_defaultRow hasc hdefault
    obtain ⟨-, helive⟩ := usable_iff.mp he
    refine ⟨e, hmem, hei, helive, (hfirst c hc hci).resolve_left ?_⟩
    rintro rfl
    rw [helive] at hexpired
    cases hexpired
  · rintro h ⟨c, hc, hcu⟩ ref href
    obtain ⟨hci, hclive⟩ := usable_iff.mp hcu
    obtain ⟨d, hdefault⟩ := exists_defaultRow hc hci
    obtain ⟨hd, hdi, hfirst⟩ := first_of_defaultRow hasc hdefault
    have hlive : d.expired t = false := by
      rw [Bool.eq_false_iff]
      intro hexpired
      obtain ⟨e, he, hei, helive, hprec⟩ := h ⟨c, hc, hci, hclive⟩ d hd hdi hexpired
      rcases hfirst e he hei with rfl | hprec'
      · rw [helive] at hexpired
        cases hexpired
      · exact hprec.asymm hprec'
    refine ⟨⟨_, w, returns_getCAByRef_default href ht⟩, ?_⟩
    intro r w' hr
    have hrow := getCAByRef_default href hr
    rw [hdefault] at hrow
    exact ⟨d, hrow, usable_iff.mpr ⟨hdi, hlive⟩⟩

end Resolution

/-! ## Runs -/

section Run

variable [Go.Runtime] {e : Env} {w w' : World}

/-- A statement of a replica leaves the authorities in the order of their keys. -/
theorem ascending_exec {s : Stmt} {x : s.Ans} (h : exec e w s = some (x, w'))
    (hw : w.ca.cas.Ascending) : w'.ca.cas.Ascending := by
  refine exec_ca_induction (P := fun _ t t' => t.cas.Ascending → t'.cas.Ascending)
    (fun _ _ => id) ?_ h hw
  intro s t _ ht
  have hupdate {p : CA → Bool} {f : CA → CA} {hf : ∀ c, (f c).id = c.id} :
      (t.updateCas p f hf).cas.Ascending := ht.update p hf
  cases s with
  | insertCA c =>
    simp only [CaTables.exec]
    split
    · exact ht
    · exact ht.insert _ _
  | completeCA id c =>
    simp only [CaTables.exec]
    split
    · exact ht
    · exact hupdate
  | insertCertificate c =>
    simp only [CaTables.exec]
    split <;> exact ht
  | setDefaultCA id => exact hupdate
  | setCAStatus id st => exact hupdate
  | nextCRLNumber id => exact hupdate
  | _ => exact ht

/-- And so does a deletion. -/
theorem ascending_admin {s : adminSig.Stmt} {x : adminSig.Ans s}
    (h : adminExec e w s = some (x, w')) (hw : w.ca.cas.Ascending) : w'.ca.cas.Ascending := by
  cases s with
  | inl s => exact ascending_exec (exec_of_admin h) hw
  | inr s =>
    rcases deleteExec_cases h with rfl | ⟨_, _, _, rfl⟩
    · exact hw
    · exact hw.delete _

/-- **The default authority is usable** in a state that any sequence of requests and deletions
reaches, interleaved in any way, exactly when no expired authority stands before all that can
issue. -/
theorem default_usable_iff (creds : Table EABCred) (ts : List Task) (moves : Pool.Schedule Env)
    {i : Nat} (hi : i ≤ moves.length) {t : Time} (ht : 0 < t) :
    FoundUsable (tasksUpto (.empty creds) ts moves i).world t ↔
      Unblocked t (tasksUpto (.empty creds) ts moves i).world.ca.cas := by
  have hasc : (tasksUpto (.empty creds) ts moves i).world.ca.cas.Ascending :=
    task_invariant (P := fun w => w.ca.cas.Ascending) Table.ascending_empty
      (fun _ _ _ _ _ _ _ h hw => ascending_admin h hw) hi
  exact foundUsable_iff ht hasc

end Run

/-! ## An expired default -/

open Samples

instance (t : Time) (cas : Table CA) : Decidable (Unblocked t cas) := by
  unfold Unblocked; infer_instance

/-- A root of one day, and a root of the configured length. -/
def shortRoot : List Task := [
  .call ⟨replica, .createCA { name := "Day", subject := { commonName := "Day" }, days := 1 }⟩,
  .call ⟨replica, .createCA { name := "Root", subject := { commonName := "Root" } }⟩]

/-- On the first day the default can issue. -/
theorem shortRoot_usable :
    @FoundUsable Go.asciiRuntime
      (@tasksUpto Go.asciiRuntime (.empty .empty) shortRoot (inSequence 2) 24).world 200 := by
  let _ := Go.asciiRuntime
  exact (default_usable_iff .empty shortRoot (inSequence 2) (by decide) (by decide)).mpr
    (by decide +kernel)

/-- On the third day it has expired, and requests that name no authority are sent to it although the
other root can issue. -/
theorem shortRoot_blocked :
    ¬ @FoundUsable Go.asciiRuntime
      (@tasksUpto Go.asciiRuntime (.empty .empty) shortRoot (inSequence 2) 24).world 200000 := by
  let _ := Go.asciiRuntime
  have hasc : (tasksUpto (.empty .empty) shortRoot (inSequence 2) 24).world.ca.cas.Ascending :=
    task_invariant (P := fun w => w.ca.cas.Ascending) Table.ascending_empty
      (fun _ _ _ _ _ _ _ h hw => ascending_admin h hw) (by decide)
  have hblocked : ¬ Unblocked 200000
      (tasksUpto (.empty .empty) shortRoot (inSequence 2) 24).world.ca.cas := by
    decide +kernel
  exact fun h => hblocked ((foundUsable_iff (by decide) hasc).mp h)

end Goca
