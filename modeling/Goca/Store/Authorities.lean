import Goca.Store.Step

/-!
# What a statement does to the authorities

One inversion lemma for the row of an authority, `authority_step`, and one for the default markers
of all rows together, `marked_step`, because `SetDefaultCA` is about every row at once.
-/

set_option autoImplicit false

namespace Goca.Store

open Sql (Table)

variable {e : Env} {w w' : World} {s : Stmt} {x : s.Ans}

/-! ## Rows -/

/-- How the row of authority `i` can change in one statement. -/
inductive AuthorityStep (e : Env) (t : CaTables) (i : Nat) :
    Stmt → Option CA → Option CA → Prop
  | same (s : Stmt) (r : Option CA) : AuthorityStep e t i s r r
  | inserted (c : CA) (hi : i = t.cas.seq + 1) (hc : t.caConflict c = none) :
      AuthorityStep e t i (.ca (.insertCA c)) none (some { c with id := i })
  | marked (id : Nat) (r : CA) : AuthorityStep e t i (.ca (.setDefaultCA id)) (some r)
      (some { r with isDefault := r.id == id })
  | status (st : CAStatus) (r : CA) (hc : e.fault.commits = true) : AuthorityStep e t i (.ca (.setCAStatus i st)) (some r)
      (some { r with status := st })
  | numbered (r : CA) : AuthorityStep e t i (.ca (.nextCRLNumber i)) (some r)
      (some { r with crlNumber := r.crlNumber + 1, lastCRLAt := some e.now })
  | completed (c r : CA) (hp : c.parentID.any (fun p => (t.cas.get? p).isNone) = false) :
      AuthorityStep e t i (.ca (.completeCA i c)) (some r) (some (r.completed c))

/-- **What a statement does to an authority.** -/
theorem authority_step [Go.Runtime] (h : exec e w s = some (x, w')) (i : Nat) :
    AuthorityStep e w.ca i s (w.ca.cas.get? i) (w'.ca.cas.get? i) := by
  refine exec_ca_induction
    (P := fun s t t' => AuthorityStep e t i s (t.cas.get? i) (t'.cas.get? i))
    (fun s t => .same s _) ?_ h
  intro s t hc
  cases s with
  | insertCA c =>
    simp only [CaTables.exec]
    split
    · exact .same _ _
    · next hconflict =>
      have hnew : AuthorityStep e t i (.ca (.insertCA c)) (t.cas.get? i)
          ((t.cas.insert (fun id => { c with id }) fun _ => rfl).get? i) := by
        rw [Table.get?_insert]
        by_cases hi : i = t.cas.seq + 1
        · rw [if_pos hi, Table.get?_eq_none_of_lt (by omega)]
          exact .inserted c hi hconflict
        · rw [if_neg hi]
          exact .same _ _
      exact hnew
  | completeCA id c =>
    simp only [CaTables.exec]
    split
    · exact .same _ _
    · next hp =>
      refine Table.update_induction (P := AuthorityStep e t i _) t.cas (·.id == id)
        (·.completed c) (fun _ => rfl) i (.same _) ?_
      intro r hr hid
      obtain rfl : i = id := hr.symm.trans (beq_iff_eq.mp hid)
      exact .completed c r (Bool.eq_false_iff.mpr hp)
  | insertCertificate c =>
    simp only [CaTables.exec]
    split <;> exact .same _ _
  | setDefaultCA id =>
    refine Table.update_induction (P := AuthorityStep e t i _) t.cas (fun _ => true)
      (fun c => { c with isDefault := c.id == id }) (fun _ => rfl) i (.same _) ?_
    intro r _ _
    exact .marked id r
  | setCAStatus id st =>
    refine Table.update_induction (P := AuthorityStep e t i _) t.cas (·.id == id)
      (fun c => { c with status := st }) (fun _ => rfl) i (.same _) ?_
    intro r hr hid
    obtain rfl : i = id := hr.symm.trans (beq_iff_eq.mp hid)
    exact .status st r hc
  | nextCRLNumber id =>
    refine Table.update_induction (P := AuthorityStep e t i _) t.cas (·.id == id)
      (fun c => { c with crlNumber := c.crlNumber + 1, lastCRLAt := some e.now })
      (fun _ => rfl) i (.same _) ?_
    intro r hr hid
    obtain rfl : i = id := hr.symm.trans (beq_iff_eq.mp hid)
    exact .numbered r
  | _ => exact .same _ _

/-- A row that is there keeps its name and its slug. -/
theorem AuthorityStep.label {t : CaTables} {i : Nat} {r r' : CA}
    (h : AuthorityStep e t i s (some r) (some r')) : r'.name = r.name ∧ r'.slug = r.slug := by
  cases h <;> exact ⟨rfl, rfl⟩

/-- A row that was not there has been inserted. -/
theorem AuthorityStep.new {t : CaTables} {i : Nat} {r' : CA}
    (h : AuthorityStep e t i s none (some r')) : ∃ n, s = .ca (.insertCA n) ∧
      t.caConflict n = none ∧ i = t.cas.seq + 1 ∧ r' = { n with id := i } := by
  cases h with
  | inserted n hi hc => exact ⟨n, rfl, hc, hi, rfl⟩

/-- A row that is there stays. -/
theorem AuthorityStep.kept {t : CaTables} {i : Nat} {r : CA} {r' : Option CA}
    (h : AuthorityStep e t i s (some r) r') : ∃ r₁, r' = some r₁ := by
  cases h <;> exact ⟨_, rfl⟩

/-! ## The default marker -/

/-- Authority `i` carries the default marker. -/
def Marked (t : Table CA) (i : Nat) : Prop := ∃ c, t.get? i = some c ∧ c.isDefault = true

/-- How the default markers can change in one statement. -/
inductive MarkStep (e : Env) (t t' : CaTables) : Stmt → Prop
  | same (s : Stmt) (h : ∀ i, Marked t'.cas i → Marked t.cas i) : MarkStep e t t' s
  | moved (id : Nat) (h : ∀ i, Marked t'.cas i → i = id) : MarkStep e t t' (.ca (.setDefaultCA id))
  | inserted (c : CA) (commits : e.fault.commits = true) (hc : t.caConflict c = none)
      (hd : c.isDefault = true) (h : ∀ i, Marked t'.cas i ↔ Marked t.cas i ∨ i = t.cas.seq + 1) :
      MarkStep e t t' (.ca (.insertCA c))

/-- An update that keeps the markers moves none. -/
theorem marked_update {t : Table CA} {p : CA → Bool} {f : CA → CA}
    (hf : ∀ c, Sql.Keyed.key (f c) = Sql.Keyed.key c) (h : ∀ c, (f c).isDefault = c.isDefault)
    {i : Nat} (hi : Marked (t.update p f hf) i) : Marked t i := by
  obtain ⟨c, hc, hd⟩ := hi
  rw [Table.get?_update] at hc
  obtain ⟨r, hr, rfl⟩ := Option.map_eq_some_iff.mp hc
  refine ⟨r, hr, ?_⟩
  split at hd
  · rw [← h r]
    exact hd
  · exact hd

/-- The markers after an insertion. -/
theorem marked_insert {t : Table CA} {c : CA} {i : Nat} :
    Marked (t.insert (fun id => { c with id }) fun _ => rfl) i ↔
      Marked t i ∨ (i = t.seq + 1 ∧ c.isDefault = true) := by
  unfold Marked
  rw [Table.get?_insert]
  by_cases hi : i = t.seq + 1
  · rw [if_pos hi, Table.get?_eq_none_of_lt (by omega)]
    simp [hi]
  · rw [if_neg hi]
    simp [hi]

/-- **What a statement does to the default markers.** -/
theorem marked_step [Go.Runtime] (h : exec e w s = some (x, w')) : MarkStep e w.ca w'.ca s := by
  refine exec_ca_induction (P := fun s t t' => MarkStep e t t' s) ?_ ?_ h
  · intro s t
    exact .same s fun _ => id
  intro s t hcommits
  have hnone {t' : CaTables} (ht : t'.cas = t.cas) : MarkStep e t t' (.ca s) :=
    .same _ fun i hi => ht ▸ hi
  have hsame {p : CA → Bool} {f : CA → CA} {hf : ∀ c, (f c).id = c.id}
      (hkeep : ∀ c, (f c).isDefault = c.isDefault) : MarkStep e t (t.updateCas p f hf) (.ca s) :=
    .same _ fun _ hi => marked_update hf hkeep hi
  cases s with
  | insertCA c =>
    simp only [CaTables.exec]
    split
    · exact hnone rfl
    · next hconflict =>
      by_cases hd : c.isDefault = true
      · refine .inserted c hcommits hconflict hd ?_
        intro i
        exact marked_insert.trans (by rw [and_iff_left hd])
      · refine .same _ ?_
        intro i hi
        rcases marked_insert.mp hi with hi | ⟨_, hc⟩
        · exact hi
        · exact absurd hc hd
  | completeCA id c =>
    simp only [CaTables.exec]
    split
    · exact hnone rfl
    · exact hsame fun _ => rfl
  | insertCertificate c =>
    simp only [CaTables.exec]
    split <;> exact hnone rfl
  | setDefaultCA id =>
    refine .moved id ?_
    rintro i ⟨c, hc, hd⟩
    have hget := Table.get?_update_self (p := fun _ => true)
      (f := fun c : CA => { c with isDefault := c.id == id }) t.cas (fun _ => rfl) (i := i)
      fun _ _ => rfl
    obtain ⟨r, hr, rfl⟩ := Option.map_eq_some_iff.mp (hget.symm.trans hc)
    exact (Table.key_of_get? hr).symm.trans (beq_iff_eq.mp hd)
  | setCAStatus id st => exact hsame fun _ => rfl
  | nextCRLNumber id => exact hsame fun _ => rfl
  | _ => exact hnone rfl

/-- What `SetCAStatus` leaves in the row of its authority. -/
theorem get?_setCAStatus [Go.Runtime] (e : Env) (t : CaTables) (id : Nat) (st : CAStatus) :
    (t.exec e (.setCAStatus id st)).2.cas.get? id =
      (t.cas.get? id).map fun c => { c with status := st } :=
  Table.get?_update_self (p := (·.id == id)) (f := fun c : CA => { c with status := st }) t.cas
    (fun _ => rfl) fun _ hr => beq_iff_eq.mpr hr

end Goca.Store
