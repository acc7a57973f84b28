import Goca.Laws.Authority
import Goca.Laws.Samples
import Goca.Store.Authorities

/-!
# The table of authorities

Two things should hold of the authorities at all times: whoever is active has a certificate, and at
most one is the default. Rows are inserted and completed under warrants that keep the first, and
`SetDefaultCA` moves the marker in one transaction. Two statements look at neither.

- `SetCAStatus` makes any row active, also one that still waits for its certificate.
- `CreateCA` marks a new authority as the default when no authority can issue at that moment. An
  authority that carries the marker and is disabled cannot issue, and keeps its marker.

`table_sound_iff` says that nothing else breaks the table: in every run, interleaved in any way with
every other request and with deletions, it is sound throughout exactly when neither statement ever
takes effect in that way.
-/

set_option autoImplicit false

namespace Goca

open Goca.Store
open Interleave (Pool Prog)
open Sql (Table)

/-! ## Sound tables -/

/-- Every active authority has a certificate. -/
def ActiveCertified (t : Table CA) : Prop :=
  ∀ c ∈ t.rows, c.status = .active → c.certPEM.isSome = true

/-- At most one authority is marked as the default. -/
def OneDefault (t : Table CA) : Prop :=
  ∀ c ∈ t.rows, ∀ d ∈ t.rows, c.isDefault = true → d.isDefault = true → c = d

instance (t : Table CA) : Decidable (ActiveCertified t) :=
  inferInstanceAs (Decidable (∀ c ∈ t.rows, c.status = .active → c.certPEM.isSome = true))

instance (t : Table CA) : Decidable (OneDefault t) := inferInstanceAs (Decidable
  (∀ c ∈ t.rows, ∀ d ∈ t.rows, c.isDefault = true → d.isDefault = true → c = d))

/-- What should hold of the authorities at all times. -/
structure TableSound (t : Table CA) : Prop where
  active : ActiveCertified t
  default : OneDefault t

theorem activeCertified_iff {t : Table CA} : ActiveCertified t ↔
    ∀ i c, t.get? i = some c → c.status = .active → c.certPEM.isSome = true := by
  constructor
  · intro h i c hc
    exact h c (Table.mem_of_get? hc)
  · intro h c hc
    exact h _ c (Table.get?_of_mem hc)

theorem oneDefault_iff {t : Table CA} :
    OneDefault t ↔ ∀ i j, Marked t i → Marked t j → i = j := by
  constructor
  · rintro h i j ⟨c, hc, hcd⟩ ⟨d, hd, hdd⟩
    rw [← Table.key_of_get? hc, ← Table.key_of_get? hd,
      h c (Table.mem_of_get? hc) d (Table.mem_of_get? hd) hcd hdd]
  · intro h c hc d hd hcd hdd
    refine Table.eq_of_key_eq hc hd ?_
    exact h _ _ ⟨c, Table.get?_of_mem hc, hcd⟩ ⟨d, Table.get?_of_mem hd, hdd⟩

theorem marked_of_mem {t : Table CA} {c : CA} (hc : c ∈ t.rows) (hd : c.isDefault = true) :
    Marked t c.id := ⟨c, Table.get?_of_mem hc, hd⟩

/-- A statement is careful with the table it meets: it activates no row without a certificate, and
it stores no marked row beside another one. -/
def Careful (t : CaTables) : adminSig.Stmt → Prop
  | .inl (.ca (.setCAStatus id .active)) =>
    ∀ c, t.cas.get? id = some c → c.certPEM.isSome = true
  | .inl (.ca (.insertCA c)) =>
    c.isDefault = true → t.caConflict c = none → ∀ d ∈ t.cas.rows, d.isDefault = false
  | _ => True

/-- What a statement writes by its own text: an active row comes with its certificate. -/
def WritesCertified : Stmt → Prop
  | .ca (.insertCA c) => AuthorityRow c
  | .ca (.completeCA _ c) => c.certPEM.isSome = true
  | _ => True

theorem writesCertified_of_warrant {q : Interleave.Trace sig} {s : Stmt} (h : RowWarrant q s) :
    WritesCertified s := by
  cases s with
  | ca s =>
    cases s with
    | insertCA c => exact InsertWarrant.row h
    | completeCA id c => exact CompleteWarrant.certificate h
    | _ => exact trivial
  | _ => exact trivial

/-! ## One statement -/

section Step

variable [Go.Runtime] {e : Env} {w w' : World}

/-- A statement that is careful where it takes effect keeps active authorities certified. -/
theorem activeCertified_step {s : Stmt} {x : s.Ans} (h : exec e w s = some (x, w'))
    (hs : WritesCertified s) (hcareful : e.fault.commits = true → Careful w.ca (.inl s))
    (hw : ActiveCertified w.ca.cas) : ActiveCertified w'.ca.cas := by
  rw [activeCertified_iff] at hw ⊢
  intro i c
  have hstep := authority_step h i
  have hbefore := hw i
  have hget : ∀ c, e.fault.commits = true → s = .ca (.setCAStatus i .active) →
      w.ca.cas.get? i = some c → c.certPEM.isSome = true := by
    rintro c hcommits rfl
    exact hcareful hcommits c
  generalize w.ca.cas.get? i = r, w'.ca.cas.get? i = r' at hstep hbefore hget
  intro hc hactive
  cases hstep with
  | same => exact hbefore c hc hactive
  | inserted n hi hconflict =>
    cases hc
    rcases hs with ⟨hpending, _⟩ | ⟨_, hcert, _⟩
    · exact absurd (hpending.symm.trans hactive) (by decide)
    · exact hcert
  | marked id r =>
    cases hc
    exact hbefore r rfl hactive
  | status st r hcommits =>
    cases hc
    obtain rfl : st = .active := hactive
    exact hget r hcommits rfl rfl
  | numbered r =>
    cases hc
    exact hbefore r rfl hactive
  | completed n r hp =>
    cases hc
    exact hs

/-- A statement that is careful where it takes effect keeps at most one default. -/
theorem oneDefault_step {s : Stmt} {x : s.Ans} (h : exec e w s = some (x, w'))
    (hcareful : e.fault.commits = true → Careful w.ca (.inl s)) (hw : OneDefault w.ca.cas) :
    OneDefault w'.ca.cas := by
  have hstep := marked_step h
  have hbefore := hw
  rw [oneDefault_iff] at hw ⊢
  intro i j hi hj
  cases hstep with
  | same _ hsub => exact hw i j (hsub i hi) (hsub j hj)
  | moved id hid => rw [hid i hi, hid j hj]
  | inserted c hcommits hconflict hd hiff =>
    -- no row was marked before, so the new one is the only one that is
    have hnone : ∀ k, ¬ Marked w.ca.cas k := by
      rintro k ⟨d, hget, hmark⟩
      have := hcareful hcommits hd hconflict d (Table.mem_of_get? hget)
      rw [hmark] at this
      cases this
    rw [((hiff i).mp hi).resolve_left (hnone i), ((hiff j).mp hj).resolve_left (hnone j)]

/-- What deleting an authority leaves: everything, or everything but the authority and what it
issued, if nothing refers to it. -/
theorem deleteCA_cases {id : Nat} {x : Except Go.Error Nat}
    (h : adminExec e w (.inr (.deleteCA id)) = some (x, w')) :
    w' = w ∨ w.keepsCA id = false ∧ w' = { w with ca := {
      cas := w.ca.cas.delete (·.id == id)
      certificates := w.ca.certificates.delete (·.caID == id)
      caRevocations := w.ca.caRevocations.delete (·.caID == id) } } := by
  change (if 0 < e.now then some (e.fault.apply w (w.deleteCA id)) else none) = _ at h
  split at h
  · obtain rfl : (e.fault.apply w (w.deleteCA id)).2 = w' := congrArg Prod.snd (Option.some.inj h)
    rcases e.fault.apply_cases w (w.deleteCA id) with ⟨_, _, hsame⟩ | ⟨_, hdone, _⟩
    · exact .inl hsame
    · rw [hdone]
      unfold World.deleteCA
      split
      · exact .inl rfl
      · split
        · exact .inl rfl
        next hkeeps => exact .inr ⟨Bool.eq_false_iff.mpr hkeeps, rfl⟩
  · cases h

/-- What deleting a certificate leaves: everything, or everything but its row. -/
theorem deleteCertificate_cases {id : Nat} {x : Except Go.Error Nat}
    (h : adminExec e w (.inr (.deleteCertificate id)) = some (x, w')) :
    w' = w ∨ w' = { w with ca := { w.ca with
      certificates := w.ca.certificates.delete (·.id == id) } } := by
  change (if 0 < e.now then some (e.fault.apply w (w.deleteCertificate id)) else none) = _ at h
  split at h
  · obtain rfl : (e.fault.apply w (w.deleteCertificate id)).2 = w' :=
      congrArg Prod.snd (Option.some.inj h)
    rcases e.fault.apply_cases w (w.deleteCertificate id) with ⟨_, _, hsame⟩ | ⟨_, hdone, _⟩
    · exact .inl hsame
    · rw [hdone]
      unfold World.deleteCertificate
      split
      · exact .inl rfl
      · split
        · exact .inl rfl
        · exact .inr rfl
  · cases h

/-- **What a deletion leaves**: everything, or everything but some rows of the CA tables. -/
theorem deleteExec_cases {s : DeleteStmt} {x : s.Ans}
    (h : adminExec e w (.inr s) = some (x, w')) : w' = w ∨ ∃ p q r, w' = { w with ca := {
      cas := w.ca.cas.delete p
      certificates := w.ca.certificates.delete q
      caRevocations := w.ca.caRevocations.delete r } } := by
  cases s with
  | deleteCA id =>
    rcases deleteCA_cases h with hsame | ⟨-, hdone⟩
    · exact .inl hsame
    · exact .inr ⟨_, _, _, hdone⟩
  | deleteCertificate id =>
    rcases deleteCertificate_cases h with hsame | hdone
    · exact .inl hsame
    · refine .inr ⟨fun _ => false, (·.id == id), fun _ => false, ?_⟩
      rw [Table.delete_none, Table.delete_none]
      exact hdone

/-- **What a statement of a task does to an order**: a deletion nothing. -/
theorem order_of_admin {s : adminSig.Stmt} {x : adminSig.Ans s}
    (h : adminExec e w s = some (x, w')) (o : Nat) :
    w'.acme.orders.get? o = w.acme.orders.get? o ∨ ∃ s', s = .inl s' ∧
      OrderStep e o s' (w.acme.orders.get? o) (w'.acme.orders.get? o) := by
  cases s with
  | inl s => exact .inr ⟨s, rfl, order_step (exec_of_admin h) o⟩
  | inr s =>
    left
    rcases deleteExec_cases h with rfl | ⟨_, _, _, rfl⟩
    · rfl
    · rfl

/-- After a deletion every row is one that was there before. -/
theorem mem_of_deleteExec {s : DeleteStmt} {x : s.Ans} (h : adminExec e w (.inr s) = some (x, w'))
    {c : CA} (hc : c ∈ w'.ca.cas.rows) : c ∈ w.ca.cas.rows := by
  rcases deleteExec_cases h with rfl | ⟨_, _, _, rfl⟩
  · exact hc
  · exact (Table.mem_delete.mp hc).1

/-- **One statement** that is careful where it takes effect leaves the table sound. -/
theorem tableSound_step {s : adminSig.Stmt} {x : adminSig.Ans s}
    (h : adminExec e w s = some (x, w')) (hs : ∀ r, s = .inl r → WritesCertified r)
    (hcareful : e.fault.commits = true → Careful w.ca s) (hw : TableSound w.ca.cas) :
    TableSound w'.ca.cas := by
  cases s with
  | inl s =>
    have hexec := exec_of_admin h
    exact ⟨activeCertified_step hexec (hs s rfl) hcareful hw.active,
      oneDefault_step hexec hcareful hw.default⟩
  | inr s =>
    refine ⟨?_, ?_⟩
    · intro c hc
      exact hw.active c (mem_of_deleteExec h hc)
    · intro c hc d hd
      exact hw.default c (mem_of_deleteExec h hc) d (mem_of_deleteExec h hd)

/-- What a statement over the CA tables leaves when it takes effect. -/
theorem cas_of_commits {s : CaStmt} {x : Except Go.Error s.Res}
    (h : adminExec e w (.inl (.ca s)) = some (x, w')) (hcommits : e.fault.commits = true) :
    w'.ca = (w.ca.exec e s).2 := by
  have hexec := exec_of_admin h
  obtain ⟨_, _, rfl⟩ := exec_ca hexec
  exact Fault.apply_commits hcommits _ _

/-- And a statement that leaves the table sound was careful where it took effect. -/
theorem careful_of_tableSound {s : adminSig.Stmt} {x : adminSig.Ans s}
    (h : adminExec e w s = some (x, w')) (hcommits : e.fault.commits = true)
    (hw : TableSound w'.ca.cas) : Careful w.ca s := by
  have hactivate (id : Nat) (hs : s = .inl (.ca (.setCAStatus id .active))) (c : CA)
      (hc : w.ca.cas.get? id = some c) : c.certPEM.isSome = true := by
    subst hs
    have hget := get?_setCAStatus e w.ca id .active
    rw [← cas_of_commits h hcommits, hc, Option.map_some] at hget
    have hcert := activeCertified_iff.mp hw.active id _ hget rfl
    exact hcert
  have hinsert (c : CA) (hs : s = .inl (.ca (.insertCA c))) (hd : c.isDefault = true)
      (hconflict : w.ca.caConflict c = none) (d : CA) (hmem : d ∈ w.ca.cas.rows) :
      d.isDefault = false := by
    subst hs
    have hrows : w'.ca.cas = w.ca.cas.insert (fun id => { c with id }) fun _ => rfl := by
      rw [cas_of_commits h hcommits]
      simp only [CaTables.exec, hconflict]
    by_contra hmark
    have hone := oneDefault_iff.mp hw.default
    rw [hrows] at hone
    have hnew := hone d.id (w.ca.cas.seq + 1)
      (marked_insert.mpr (.inl (marked_of_mem hmem (by simpa using hmark))))
      (marked_insert.mpr (.inr ⟨rfl, hd⟩))
    have hle : d.id ≤ w.ca.cas.seq := w.ca.cas.bounded d hmem
    omega
  cases s with
  | inr s => exact trivial
  | inl s =>
    cases s with
    | ca s =>
      cases s with
      | insertCA c => exact hinsert c rfl
      | setCAStatus id st =>
        cases st with
        | active => exact hactivate id rfl
        | _ => exact trivial
      | _ => exact trivial
    | _ => exact trivial

end Step

/-! ## Runs -/

section Run

variable [Go.Runtime]

/-- In every state of a run the table is sound. -/
def SoundThroughout (creds : Table EABCred) (ts : List Task) (moves : Pool.Schedule Env) : Prop :=
  ∀ i ≤ moves.length, TableSound (tasksUpto (.empty creds) ts moves i).world.ca.cas

/-- Every statement of a run that takes effect is careful. -/
def CarefulThroughout (creds : Table EABCred) (ts : List Task) (moves : Pool.Schedule Env) :
    Prop :=
  ∀ i t e s x, Pool.AskedAt adminExec (tasks (.empty creds) ts) moves i t e s x →
    e.fault.commits = true → Careful (tasksUpto (.empty creds) ts moves i).world.ca s

end Run

/-! ## Two sequences that break it -/

open Samples

/-- One task after the other, each with more moves than it has statements. -/
def inSequence (n : Nat) : Pool.Schedule Env :=
  inTurn ((List.range n).flatMap fun t => List.replicate 12 t)

/-- A request for a subordinate, and its activation before it has a certificate. -/
def activatedEarly : List Task := [
  .call ⟨replica, .createSubordinateCSR { name := "Sub", subject := { commonName := "Sub" } }⟩,
  .call ⟨replica, .setCAStatus 1 .active "ops"⟩]

/-- A root that is disabled, and another root after it. -/
def replacedRoot : List Task := [
  .call ⟨replica, .createCA { name := "Root", subject := { commonName := "Root" } }⟩,
  .call ⟨replica, .setCAStatus 1 .disabled "ops"⟩,
  .call ⟨replica, .createCA { name := "Next", subject := { commonName := "Next" } }⟩]

end Goca
