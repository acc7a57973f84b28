import Goca.Lib.Walk
import Goca.Ca.History
import Goca.Laws.BulkRevoke
import Goca.Laws.RenewalIdentity
import Goca.Laws.Serials

/-!
# The history of renewals

A certificate names at most one predecessor, and the predecessor was there before it: the links of
certificates that were issued and renewed lead down, so the walk of `RenewalHistory` meets nothing
twice. It takes sixty-four hops in either direction at most. What lies behind them is left out, and
then the history begins with a renewal, ends with a certificate that has been renewed, or depends on
the certificate it is asked for.
-/

set_option autoImplicit false

namespace Goca

open Go (Time)
open Goca.Store
open Interleave (Act Prog Sem)
open Interleave.Act
open Sql (Table)
open Walk (around IsLine Lines)

/-! ## Links -/

section Links

variable {t : CaTables} {c q r : Certificate}

/-- The certificate that a certificate replaced. -/
def predecessor (t : CaTables) (c : Certificate) : Option Certificate :=
  c.renewedFrom.bind t.certificates.get?

/-- The certificate that replaced a certificate first. -/
def replacement (t : CaTables) (c : Certificate) : Option Certificate :=
  t.certificateRenewedFrom c.id

/-- **Lineage**: a certificate that is a renewal replaced one that was stored before it. -/
def Lineage (t : CaTables) : Prop :=
  ∀ c ∈ t.certificates.rows, ∀ p, c.renewedFrom = some p →
    p < c.id ∧ ∃ q ∈ t.certificates.rows, q.id = p

/-- No certificate was renewed more than once. -/
def Unbranched (t : CaTables) : Prop :=
  ∀ a ∈ t.certificates.rows, ∀ b ∈ t.certificates.rows, ∀ p,
    a.renewedFrom = some p → b.renewedFrom = some p → a = b

theorem predecessor_eq_some : predecessor t c = some q ↔
    c.renewedFrom = some q.id ∧ q ∈ t.certificates.rows := by
  unfold predecessor
  rw [Option.bind_eq_some_iff]
  constructor
  · rintro ⟨p, hp, hq⟩
    obtain ⟨hrow, hkey⟩ := Table.get?_eq_some_iff.mp hq
    exact ⟨hp.trans (congrArg some hkey.symm), hrow⟩
  · rintro ⟨hp, hrow⟩
    exact ⟨q.id, hp, Table.get?_of_mem hrow⟩

/-- In a sound table every link leads to a row. -/
theorem predecessor_eq_none (hl : Lineage t) (hc : c ∈ t.certificates.rows) :
    predecessor t c = none ↔ c.renewedFrom = none := by
  constructor
  · intro hnone
    cases hp : c.renewedFrom with
    | none => rfl
    | some p =>
      obtain ⟨-, q, hq, rfl⟩ := hl c hc p hp
      rw [predecessor_eq_some.mpr ⟨hp, hq⟩] at hnone
      cases hnone
  · intro hnone
    unfold predecessor
    rw [hnone]
    rfl

theorem replacement_some (h : replacement t c = some r) :
    r ∈ t.certificates.rows ∧ r.renewedFrom = some c.id := by
  unfold replacement CaTables.certificateRenewedFrom at h
  have hmem := (List.mem_insertionSort _).mp (List.mem_of_head? h)
  obtain ⟨hrow, hlink⟩ := List.mem_filter.mp hmem
  exact ⟨hrow, beq_iff_eq.mp hlink⟩

theorem replacement_eq_none : replacement t c = none ↔
    ∀ r ∈ t.certificates.rows, r.renewedFrom ≠ some c.id := by
  unfold replacement CaTables.certificateRenewedFrom
  have hperm := List.perm_insertionSort (fun a b : Certificate => a.id ≤ b.id)
    (t.certificates.rows.filter (·.renewedFrom == some c.id))
  rw [List.head?_eq_none_iff, ← List.length_eq_zero_iff, hperm.length_eq, List.length_eq_zero_iff,
    List.filter_eq_nil_iff]
  simp only [beq_iff_eq, ne_eq]

/-- The links of one direction undo those of the other where nothing was renewed twice. -/
theorem replacement_of_predecessor (hu : Unbranched t) (hc : c ∈ t.certificates.rows)
    (h : predecessor t c = some q) : q ∈ t.certificates.rows ∧ replacement t q = some c := by
  obtain ⟨hlink, hq⟩ := predecessor_eq_some.mp h
  refine ⟨hq, ?_⟩
  cases hs : replacement t q with
  | none => exact absurd hlink (replacement_eq_none.mp hs c hc)
  | some r =>
    obtain ⟨hr, hlink'⟩ := replacement_some hs
    rw [hu r hr c hc q.id hlink' hlink]

theorem predecessor_of_replacement (hc : c ∈ t.certificates.rows) (h : replacement t c = some r) :
    r ∈ t.certificates.rows ∧ predecessor t r = some c := by
  obtain ⟨hr, hlink⟩ := replacement_some h
  exact ⟨hr, predecessor_eq_some.mpr ⟨hlink, hc⟩⟩

/-- In a sound table the lines around a certificate have their ends. -/
theorem exists_lines (hl : Lineage t) (hc : c ∈ t.certificates.rows) :
    ∃ back ahead, Lines (predecessor t) (replacement t) back c ahead := by
  have hback : ∃ back, IsLine (predecessor t) c back := by
    refine Walk.exists_line (P := fun c => c ∈ t.certificates.rows) ?_ Certificate.id ?_ hc
    · intro a b _ hb
      exact (predecessor_eq_some.mp hb).2
    · intro a b ha hb
      exact (hl a ha b.id (predecessor_eq_some.mp hb).1).1
  have hahead : ∃ ahead, IsLine (replacement t) c ahead := by
    refine Walk.exists_line (P := fun c => c ∈ t.certificates.rows) ?_
      (fun c => t.certificates.seq - c.id) ?_ hc
    · intro a b _ hb
      exact (replacement_some hb).1
    · intro a b _ hb
      obtain ⟨hrow, hlink⟩ := replacement_some hb
      have hlt := (hl b hrow a.id hlink).1
      have hle : b.id ≤ t.certificates.seq := t.certificates.bounded b hrow
      omega
  obtain ⟨back, hback⟩ := hback
  obtain ⟨ahead, hahead⟩ := hahead
  exact ⟨back, ahead, hback, hahead⟩

/-- Rows that are kept are linked as before. -/
theorem isLine_of_kept {t' : CaTables} (hl : Lineage t)
    (hkept : ∀ id q, t.certificates.get? id = some q → t'.certificates.get? id = some q)
    {l : List Certificate} (hc : c ∈ t.certificates.rows)
    (h : IsLine (predecessor t) c l) : IsLine (predecessor t') c l := by
  induction l generalizing c with
  | nil =>
    have hnone : c.renewedFrom = none := (predecessor_eq_none hl hc).mp h
    show predecessor t' c = none
    unfold predecessor
    rw [hnone]
    rfl
  | cons b l ih =>
    obtain ⟨hlink, hb⟩ := predecessor_eq_some.mp h.1
    refine ⟨?_, ih hb h.2⟩
    unfold predecessor
    rw [hlink]
    exact hkept b.id b (Table.get?_of_mem hb)

end Links

/-! ## What the walk returns -/

section Walks

variable [Go.Runtime] {ε α : Type} {w w' : World} {P : Time → Bool}

/-- A program over the statements of a replica does the same among those of the walk. -/
theorem returns_embed {q : Env → Bool} {p : Prog sig α} {a : α}
    (h : (p.embed : Prog historySig α).Returns (Sem.under historyExec q) w a w') :
    p.Returns (Sem.under exec q) w a w' := by
  induction p generalizing w with
  | pure b => exact h
  | ask s k ih =>
    obtain ⟨e, x, v, hx, hrest⟩ := h
    obtain ⟨hq, hx⟩ := Sem.under_eq_some.mp hx
    obtain ⟨v', hx', rfl⟩ := Interleave.Sem.sum_inl.mp hx
    exact ⟨e, x, v, Sem.under_eq_some.mpr ⟨hq, hx'⟩, ih x hrest⟩

theorem certificateRenewedFrom_steady {id : Nat} {r : Except Go.Error (Option Certificate)}
    (h : (certificateRenewedFrom id).Returns (Sem.under historyExec (steady P)) w r w') :
    w' = w ∧ r = .ok (w.ca.certificateRenewedFrom id) := by
  obtain ⟨e, x, v, hx, rfl, rfl⟩ := h
  obtain ⟨hsteady, hx⟩ := Sem.under_eq_some.mp hx
  obtain ⟨hfault, -⟩ := steady_iff.mp hsteady
  change (if 0 < e.now then _ else none) = some (x, v) at hx
  split at hx
  · rw [hfault] at hx
    cases hx
    exact ⟨rfl, rfl⟩
  · cases hx

-- From here on a call is taken apart by the rules, never by running it.
attribute [local irreducible] Interleave.Prog.Returns

/-- The loop back finds the predecessors. -/
theorem predecessors_steady {n : Nat} {c : Certificate} {r : Except ε (List Certificate)}
    (h : (Ca.predecessors n c).Returns (Sem.under historyExec (steady P)) w r w') :
    w' = w ∧ r = .ok (Walk.after (predecessor w.ca) n c).reverse := by
  induction n generalizing c r w' with
  | zero =>
    obtain ⟨rfl, rfl⟩ := returns_pure_any.mp h
    exact ⟨rfl, rfl⟩
  | succ n ih =>
    unfold Ca.predecessors at h
    cases hlink : c.renewedFrom with
    | none =>
      rw [hlink] at h
      obtain ⟨rfl, rfl⟩ := returns_pure_any.mp h
      have hnone : predecessor w.ca c = none := by
        unfold predecessor
        rw [hlink]
        rfl
      rw [Walk.after_of_none hnone]
      exact ⟨rfl, rfl⟩
    | some id =>
      rw [hlink] at h
      have hpred : predecessor w.ca c = w.ca.certificates.get? id := by
        unfold predecessor
        rw [hlink]
        rfl
      obtain ⟨prev, v, hprev, hrest⟩ := returns_attempt_bind.mp h
      have hread : (getCertificate id).Returns (Sem.under exec (steady P)) w prev v :=
        returns_embed hprev
      obtain ⟨rfl, rfl⟩ := Ca.getCertificate_steady hread
      cases hget : v.ca.certificates.get? id with
      | none =>
        rw [hget] at hrest
        obtain ⟨rfl, rfl⟩ := returns_pure_any.mp hrest
        rw [Walk.after_of_none (hpred.trans hget)]
        exact ⟨rfl, rfl⟩
      | some q =>
        rw [hget] at hrest
        rcases returns_bind_any.mp hrest with ⟨back, u, hback, hpure⟩ | ⟨err, rfl, herr⟩
        · obtain ⟨rfl, heq⟩ := ih hback
          cases heq
          obtain ⟨rfl, rfl⟩ := returns_pure_any.mp hpure
          rw [Walk.after_succ_of_some (hpred.trans hget), List.reverse_cons]
          exact ⟨rfl, rfl⟩
        · obtain ⟨-, heq⟩ := ih herr
          cases heq

/-- The loop ahead finds the successors. -/
theorem successors_steady {n : Nat} {c : Certificate} {r : Except ε (List Certificate)}
    (h : (Ca.successors n c).Returns (Sem.under historyExec (steady P)) w r w') :
    w' = w ∧ r = .ok (Walk.after (replacement w.ca) n c) := by
  induction n generalizing c r w' with
  | zero =>
    obtain ⟨rfl, rfl⟩ := returns_pure_any.mp h
    exact ⟨rfl, rfl⟩
  | succ n ih =>
    unfold Ca.successors at h
    obtain ⟨found, v, hfound, hrest⟩ := returns_attempt_bind.mp h
    obtain ⟨rfl, rfl⟩ := certificateRenewedFrom_steady hfound
    cases hnext : replacement v.ca c with
    | none =>
      change v.ca.certificateRenewedFrom c.id = none at hnext
      rw [hnext] at hrest
      obtain ⟨rfl, rfl⟩ := returns_pure_any.mp hrest
      rw [Walk.after_of_none hnext]
      exact ⟨rfl, rfl⟩
    | some q =>
      change v.ca.certificateRenewedFrom c.id = some q at hnext
      rw [hnext] at hrest
      rcases returns_bind_any.mp hrest with ⟨ahead, u, hahead, hpure⟩ | ⟨err, rfl, herr⟩
      · obtain ⟨rfl, heq⟩ := ih hahead
        cases heq
        obtain ⟨rfl, rfl⟩ := returns_pure_any.mp hpure
        rw [Walk.after_succ_of_some hnext]
        exact ⟨rfl, rfl⟩
      · obtain ⟨-, heq⟩ := ih herr
        cases heq

/-- **What the history is**, where the store does not fail: what both walks find. -/
theorem renewalHistory_steady {c : Certificate} {r : Except ε (List Certificate)}
    (h : (Ca.renewalHistory c).Returns (Sem.under historyExec (steady P)) w r w') :
    w' = w ∧ r = .ok (around (predecessor w.ca) (replacement w.ca) Ca.historyHops c) := by
  unfold Ca.renewalHistory at h
  rcases returns_bind_any.mp h with ⟨back, v, hback, hrest⟩ | ⟨err, rfl, herr⟩
  · obtain ⟨rfl, heq⟩ := predecessors_steady hback
    cases heq
    rcases returns_bind_any.mp hrest with ⟨ahead, u, hahead, hpure⟩ | ⟨err, rfl, herr⟩
    · obtain ⟨rfl, heq⟩ := successors_steady hahead
      cases heq
      obtain ⟨rfl, rfl⟩ := returns_pure_any.mp hpure
      exact ⟨rfl, rfl⟩
    · obtain ⟨-, heq⟩ := successors_steady herr
      cases heq
  · obtain ⟨-, heq⟩ := predecessors_steady herr
    cases heq

end Walks

/-! ## Databases that were issued from -/

section Rotation

variable [Go.Runtime] {e : Env} {w w' : World}

/-- A statement that leaves every link of the tables leading down: a new row is no renewal, and a
link is written to a row that was stored before. -/
def LinksDown (t : CaTables) : Stmt → Prop
  | .ca (.insertCertificate c) => c.renewedFrom = none
  | .ca (.setRenewedFrom id p) => p < id ∧ ∃ q ∈ t.certificates.rows, q.id = p
  | _ => True

/-- A statement that writes no link. -/
def Linkless (s : Stmt) : Prop := ∀ t, LinksDown t s

omit [Go.Runtime] in
theorem linkless_of_within {s : Stmt}
    (h : Within [.signCertificate] s) : Linkless s := by
  intro t
  cases s with
  | ca s =>
    cases s with
    | insertCertificate c => cases List.mem_singleton.mp h
    | setRenewedFrom id p => cases List.mem_singleton.mp h
    | _ => trivial
  | _ => trivial

/-- Certificates stay in the table. -/
theorem stored_exec {s : Stmt} {x : s.Ans} (h : exec e w s = some (x, w')) {p : Nat}
    (hp : ∃ q ∈ w.ca.certificates.rows, q.id = p) : ∃ q ∈ w'.ca.certificates.rows, q.id = p := by
  obtain ⟨q, hq, rfl⟩ := hp
  have hold : w.ca.certificates.get? q.id = some q := Table.get?_of_mem hq
  have hstep := cert_step h q.id
  rw [hold] at hstep
  cases hrow : w'.ca.certificates.get? q.id with
  | none =>
    rw [hrow] at hstep
    cases hstep
  | some r => exact ⟨r, Table.mem_of_get? hrow, Table.key_of_get? hrow⟩

/-- **A step keeps the links leading down.** -/
theorem lineage_exec {s : Stmt} {x : s.Ans} (h : exec e w s = some (x, w'))
    (hs : LinksDown w.ca s) (hw : Lineage w.ca) : Lineage w'.ca := by
  intro c hc p hp
  suffices hlink : p < c.id ∧ ∃ q ∈ w.ca.certificates.rows, q.id = p from
    ⟨hlink.1, stored_exec h hlink.2⟩
  have hkept (r : Certificate) (hr : w.ca.certificates.get? c.id = some r)
      (hlink : r.renewedFrom = some p) : p < c.id ∧ ∃ q ∈ w.ca.certificates.rows, q.id = p := by
    obtain ⟨hlt, hq⟩ := hw r (Table.mem_of_get? hr) p hlink
    exact ⟨(Table.key_of_get? hr : r.id = c.id) ▸ hlt, hq⟩
  have hrow : w'.ca.certificates.get? c.id = some c := Table.get?_of_mem hc
  have hstep := cert_step h c.id
  rw [hrow] at hstep
  generalize hnew : some c = new at hstep
  generalize hold : w.ca.certificates.get? c.id = old at hstep hkept
  cases hstep with
  | same => exact hkept c hnew.symm hp
  | inserted n _ =>
    have hnone : n.renewedFrom = none := hs
    rw [Option.some.inj hnew] at hp
    cases hnone.symm.trans hp
  | revoked reason r _ _ =>
    rw [Option.some.inj hnew] at hp
    exact hkept r rfl hp
  | unrevoked r _ =>
    rw [Option.some.inj hnew] at hp
    exact hkept r rfl hp
  | renewed p' r _ =>
    rw [Option.some.inj hnew] at hp
    obtain rfl : p' = p := Option.some.inj hp
    exact hs

/-! ### The calls -/

variable {s : Ca.Service}

/-- The answer of one statement over the CA tables comes of one step. -/
theorem returns_ca_step {s : CaStmt} {r : Except Go.Error s.Res}
    (h : (ca s).Returns exec w r w') :
    ∃ e, ∃ x : (Stmt.ca s).Ans, exec e w (.ca s) = some (x, w') := by
  obtain ⟨e, x, v, hx, -, rfl⟩ := h
  exact ⟨e, x, hx⟩

theorem issue_linkless (i : Ca.IssueInput) : (s.issue i).Uses Linkless := by
  have hread (s : Stmt) (hs : Within [] s) : Linkless s := linkless_of_within (within_nil s hs)
  refine ((loadIssuer_uses _).mono hread).bind fun issuer => ?_
  refine (uses_ofExcept _).bind fun profile => ?_
  refine (uses_failIf _ _).bind fun _ => ?_
  refine ((keyMaterial_uses s i).mono hread).bind fun m => ?_
  refine (uses_ofExcept _).bind fun sanOverride => ?_
  refine ((sign_uses List.mem_cons_self _).mono fun _ => linkless_of_within).bind fun cert => ?_
  have hinsert : (createCertificate (i.record issuer.1 profile m cert)).Uses Linkless := by
    refine (now_uses.mono hread).bind fun t => ?_
    refine Uses.bind (Uses.mapError (ca_uses fun _ => rfl) _) fun id => ?_
    exact (getCertificate_uses id).mono hread
  refine hinsert.bind fun saved => ?_
  refine ((audit_uses s _ _ _ _).mono hread).bind fun _ => ?_
  exact ((caChain_uses _).mono hread).attempt.bind fun chain => uses_pure _

-- From here on a call is taken apart by the rules, never by running it.
attribute [local irreducible] Interleave.Prog.Returns

variable {ε α β : Type} {p : Nat}

/-- The certificate with this number is stored. -/
def IsStored (p : Nat) (t : CaTables) : Prop := ∃ q ∈ t.certificates.rows, q.id = p

/-- A call that keeps the links leading down where a certificate is stored, and that certificate. -/
def KeepsLinks (p : Nat) (x : Handler ε α) : Prop :=
  ∀ w r w', x.Returns exec w r w' → Lineage w.ca → IsStored p w.ca →
    Lineage w'.ca ∧ IsStored p w'.ca

theorem keepsLinks_of_linkless {x : Handler ε α} (hx : x.Uses Linkless) : KeepsLinks p x := by
  intro w r w' h hw hp
  refine Prog.Uses.returns_keeps (J := fun w => Lineage w.ca ∧ IsStored p w.ca) hx ?_ h ⟨hw, hp⟩
  intro e u s x v hs hstep hu
  exact ⟨lineage_exec hstep (hs u.ca) hu.1, stored_exec hstep hu.2⟩

theorem KeepsLinks.bind {x : Handler ε α} {f : α → Handler ε β} (hx : KeepsLinks p x)
    (hf : ∀ a w v, IsStored p w.ca → x.Returns exec w (.ok a) v → KeepsLinks p (f a)) :
    KeepsLinks p (x >>= f) := by
  intro w r w' h hw hp
  refine Returns.bind_keeps (J := fun w => Lineage w.ca ∧ IsStored p w.ca) h ?_ ?_
  · exact fun r v hr => hx w r v hr hw hp
  · intro a v ha r u hr
    obtain ⟨hv, hpv⟩ := hx w (.ok a) v ha hw hp
    exact hf a w v hp ha v r u hr hv hpv

/-- The link of a renewal leads down: the new certificate got its number when the old one had its
own. -/
theorem setRenewedFrom_keepsLinks {n : Nat} (h : p < n) : KeepsLinks p (setRenewedFrom n p) := by
  intro w r w' hrun hw hp
  obtain ⟨e, x, hx⟩ := returns_ca_step hrun
  exact ⟨lineage_exec hx ⟨h, hp⟩ hw, stored_exec hx hp⟩

theorem issue_newer {i : Ca.IssueInput} {res : Ca.IssueResult}
    (h : (s.issue i).Returns exec w (.ok res) w') (hp : IsStored p w.ca) :
    p < res.certificate.id := by
  obtain ⟨q, hq, rfl⟩ := hp
  obtain ⟨_, _, _, _, _, _, hcert, _⟩ := issue_returns h
  have hle : q.id ≤ w.ca.certificates.seq := w.ca.certificates.bounded q hq
  rw [hcert]
  exact Nat.lt_succ_of_le hle

/-- **A renewal keeps the links leading down.** -/
theorem renew_lineage {id : Nat} {i : Ca.RenewInput} {r : Except Go.Error Ca.RenewResult}
    (h : (s.renew id i).Returns exec w r w') (hw : Lineage w.ca) : Lineage w'.ca := by
  have hread (s : Stmt) (hs : Within [] s) : Linkless s := linkless_of_within (within_nil s hs)
  refine Returns.bind_keeps (J := fun w => Lineage w.ca) h ?_ ?_
  · intro r v hget
    rw [Act.Returns.reads (getCertificate_uses id) hget]
    exact hw
  intro old v hget r u hrest
  obtain ⟨hold, rfl⟩ := getCertificate_returns hget
  have hstored : IsStored old.id w.ca := ⟨old, Table.mem_of_get? hold, rfl⟩
  suffices hkeeps : KeepsLinks old.id _ from (hkeeps w r u hrest hw hstored).1
  refine (keepsLinks_of_linkless ((renewalIssuer_uses i old).mono hread)).bind
    fun caRef _ _ _ _ => ?_
  refine (keepsLinks_of_linkless (uses_ofExcept _)).bind fun subject _ _ _ _ => ?_
  refine (keepsLinks_of_linkless (uses_ofExcept _)).bind fun request _ _ _ _ => ?_
  refine (keepsLinks_of_linkless (issue_linkless request)).bind fun res _ _ hp hissue => ?_
  refine (setRenewedFrom_keepsLinks (issue_newer hissue hp)).bind fun _ _ _ _ _ => ?_
  refine keepsLinks_of_linkless ?_
  refine (revokeOldIf_uses (fun _ _ => trivial) _ _ _).bind fun revokedOld => ?_
  exact ((audit_uses s _ _ _ _).mono hread).bind fun _ => uses_pure _

/-- **A database that was issued from**: it began without a certificate, and calls of `issue` and
`renew` led to it, whatever became of them. -/
inductive Rotation : World → Prop
  | start {w : World} (h : w.ca.certificates.rows = []) : Rotation w
  | issue {w w' : World} (s : Ca.Service) (i : Ca.IssueInput) {r : Except Go.Error Ca.IssueResult}
      (hw : Rotation w) (h : (s.issue i).Returns exec w r w') : Rotation w'
  | renew {w w' : World} (s : Ca.Service) (id : Nat) (i : Ca.RenewInput)
      {r : Except Go.Error Ca.RenewResult} (hw : Rotation w)
      (h : (s.renew id i).Returns exec w r w') : Rotation w'

/-- Its links lead down. -/
theorem Rotation.lineage (h : Rotation w) : Lineage w.ca := by
  induction h with
  | start h =>
    intro c hc
    rw [h] at hc
    cases hc
  | issue s i _ h ih =>
    refine Prog.Uses.returns_keeps (J := fun w => Lineage w.ca) (issue_linkless i) ?_ h ih
    exact fun e u s x v hs hstep hu => lineage_exec hstep (hs u.ca) hu
  | renew s id i _ h ih => exact renew_lineage h ih

end Rotation

/-! ## The law -/

section Law

variable [Go.Runtime] {w : World} {c : Certificate}

/-- **One complete chain** that holds a certificate: it begins with a certificate that is no
renewal, each further one is a renewal of the one before, and the last has not been renewed. -/
structure Chained (t : CaTables) (c : Certificate) (l : List Certificate) : Prop where
  member : c ∈ l
  stored : ∀ d ∈ l, d ∈ t.certificates.rows
  distinct : (l.map (·.id)).Nodup
  first : ∀ d ∈ l.head?, d.renewedFrom = none
  linked : l.IsChain fun a b => b.renewedFrom = some a.id
  last : ∀ d ∈ l.getLast?, ∀ r ∈ t.certificates.rows, r.renewedFrom ≠ some d.id

/-- What the history of a certificate is, asked for with nobody in between: a complete chain, and
the same from each of its members where nothing was renewed twice. -/
def CompleteHistory (w : World) (c : Certificate) : Prop :=
  ∀ (r : Except Go.Error (List Certificate)) (w' : World),
    (Ca.renewalHistory c).Returns (Sem.under historyExec (steady fun _ => true)) w r w' →
    ∃ l, r = .ok l ∧ Chained w.ca c l ∧ (Unbranched w.ca → ∀ d ∈ l,
      ∀ (r' : Except Go.Error (List Certificate)) (w'' : World),
        (Ca.renewalHistory d).Returns (Sem.under historyExec (steady fun _ => true)) w r' w'' →
        r' = .ok l)

/-- **Within the hop limit**: no more certificates lie before a certificate than the walk takes
hops, no more behind it, and no more altogether where nothing was renewed twice. -/
def WithinHops (t : CaTables) (c : Certificate) : Prop :=
  ∃ back ahead, Lines (predecessor t) (replacement t) back c ahead ∧
    back.length ≤ Ca.historyHops ∧ ahead.length ≤ Ca.historyHops ∧
    (Unbranched t → back.length + ahead.length ≤ Ca.historyHops)

omit [Go.Runtime] in
/-- What the walk finds is a chain, but for its ends. -/
theorem chained_iff {t : CaTables} {back ahead : List Certificate} (hl : Lineage t)
    (hc : c ∈ t.certificates.rows)
    (h : Lines (predecessor t) (replacement t) back c ahead) (n : Nat) :
    Chained t c (around (predecessor t) (replacement t) n c) ↔
      back.length ≤ n ∧ ahead.length ≤ n := by
  have hback (a b : Certificate) (_ : a ∈ t.certificates.rows) (hb : predecessor t a = some b) :
      b ∈ t.certificates.rows ∧ a.renewedFrom = some b.id :=
    (predecessor_eq_some.mp hb).symm
  have hahead (a b : Certificate) (_ : a ∈ t.certificates.rows) (hb : replacement t a = some b) :
      b ∈ t.certificates.rows ∧ b.renewedFrom = some a.id := replacement_some hb
  have hrows := Walk.forall_around (fun a b ha hb => (hback a b ha hb).1)
    (fun a b ha hb => (hahead a b ha hb).1) hc n
  have hlinked := Walk.chain_around hback hahead hc n
  constructor
  · intro hchain
    refine ⟨(h.begun_iff n).mp fun d hd => ?_, (h.ended_iff n).mp fun d hd => ?_⟩
    · exact (predecessor_eq_none hl (hchain.stored d (List.mem_of_mem_head? hd))).mpr
        (hchain.first d hd)
    · exact replacement_eq_none.mpr (hchain.last d hd)
  · rintro ⟨hbegun, hended⟩
    refine ⟨Walk.mem_around _ _ n c, hrows, ?_, fun d hd => ?_, hlinked, fun d hd => ?_⟩
    · -- The numbers increase along the chain.
      have hup : ((around (predecessor t) (replacement t) n c).map (·.id)).IsChain (· < ·) := by
        refine List.isChain_map_of_isChain Certificate.id (fun _ _ hlt => hlt)
          (Walk.chain_around (R := fun a b => a.id < b.id) ?_ ?_ hc n)
        · intro a b ha hb
          obtain ⟨hrow, hlink⟩ := hback a b ha hb
          exact ⟨hrow, (hl a ha b.id hlink).1⟩
        · intro a b ha hb
          obtain ⟨hrow, hlink⟩ := hahead a b ha hb
          exact ⟨hrow, (hl b hrow a.id hlink).1⟩
      exact (List.isChain_iff_pairwise.mp hup).imp fun hlt => Nat.ne_of_lt hlt
    · exact (predecessor_eq_none hl (hrows d (List.mem_of_mem_head? hd))).mp
        ((h.begun_iff n).mpr hbegun d hd)
    · exact replacement_eq_none.mp ((h.ended_iff n).mpr hended d hd)

/-! ### The walk comes to an end -/

/-- A statement that every store answers. -/
def Walks : historySig.Stmt → Prop
  | .inl s => Answerable s
  | .inr _ => True

omit [Go.Runtime] in
theorem getCertificate_walks {ε : Type} (id : Nat) :
    ((getCertificate id).embed.attempt : Act historySig ε _).Uses Walks :=
  Uses.attempt (Prog.Uses.embed (P := Answerable) (fun _ h => h) ((ca_uses trivial).mapResult _))

omit [Go.Runtime] in
theorem predecessors_walks {ε : Type} (n : Nat) (c : Certificate) :
    (Ca.predecessors n c : Act historySig ε _).Uses Walks := by
  induction n generalizing c with
  | zero => exact uses_pure _
  | succ n ih =>
    unfold Ca.predecessors
    split
    · exact uses_pure _
    · refine (getCertificate_walks _).bind fun prev => ?_
      cases prev with
      | error e => exact uses_pure _
      | ok prev => exact (ih prev).bind fun back => uses_pure _

omit [Go.Runtime] in
theorem successors_walks {ε : Type} (n : Nat) (c : Certificate) :
    (Ca.successors n c : Act historySig ε _).Uses Walks := by
  induction n generalizing c with
  | zero => exact uses_pure _
  | succ n ih =>
    unfold Ca.successors
    have hfind : (certificateRenewedFrom c.id).Uses Walks := .ask trivial fun _ => .pure _
    refine hfind.attempt.bind fun found => ?_
    rcases found with e | _ | next
    · exact uses_pure _
    · exact uses_pure _
    · exact (ih next).bind fun ahead => uses_pure _

/-- **The walk returns.** -/
theorem returns_renewalHistory (w : World) (c : Certificate) :
    ∃ (r : Except Go.Error (List Certificate)) (w' : World),
      (Ca.renewalHistory c).Returns (Sem.under historyExec (steady fun _ => true)) w r w' := by
  have hwalks : (Ca.renewalHistory c : Act historySig Go.Error _).Uses Walks :=
    (predecessors_walks _ c).bind fun _ => (successors_walks _ c).bind fun _ => uses_pure _
  refine Prog.Uses.returns hwalks ?_ w
  intro s u hs
  have hpos : (0 : Time) < 1 := by decide
  have hsteady : steady (fun _ => true) { now := 1 } = true := rfl
  cases s with
  | inl s =>
    obtain ⟨⟨y, v⟩, hy⟩ := Option.isSome_iff_exists.mp
      (answered (e := { now := 1 }) (w := u) hpos hs)
    refine ⟨{ now := 1 }, y, v, Sem.under_eq_some.mpr ⟨hsteady, ?_⟩⟩
    exact Interleave.Sem.sum_inl.mpr ⟨v, hy, rfl⟩
  | inr s =>
    cases s with
    | certificateRenewedFrom id =>
      refine ⟨{ now := 1 }, .ok (u.ca.certificateRenewedFrom id), u, ?_⟩
      exact Sem.under_eq_some.mpr ⟨hsteady, rfl⟩

/-- What all runs of the walk have in common, without a failing statement. -/
theorem completeHistory_iff (w : World) (c : Certificate) :
    CompleteHistory w c ↔
      Chained w.ca c (around (predecessor w.ca) (replacement w.ca) Ca.historyHops c) ∧
      (Unbranched w.ca →
        ∀ d ∈ around (predecessor w.ca) (replacement w.ca) Ca.historyHops c,
          around (predecessor w.ca) (replacement w.ca) Ca.historyHops d =
            around (predecessor w.ca) (replacement w.ca) Ca.historyHops c) := by
  constructor
  · intro hcomplete
    obtain ⟨r, w', h⟩ := returns_renewalHistory w c
    obtain ⟨l, hr, hchain, hsame⟩ := hcomplete r w' h
    obtain rfl := Except.ok.inj ((renewalHistory_steady h).2.symm.trans hr)
    refine ⟨hchain, fun hu d hd => ?_⟩
    obtain ⟨r', w'', h'⟩ := returns_renewalHistory w d
    exact Except.ok.inj ((renewalHistory_steady h').2.symm.trans (hsame hu d hd r' w'' h'))
  · rintro ⟨hchain, hsame⟩ r w' h
    refine ⟨_, (renewalHistory_steady h).2, hchain, fun hu d hd r' w'' h' => ?_⟩
    rw [(renewalHistory_steady h').2, hsame hu d hd]

/-- **Renewal history is one complete chain** exactly within the hop limit. -/
theorem renewalHistory_complete (hw : Rotation w) (hc : c ∈ w.ca.certificates.rows) :
    (∃ (r : Except Go.Error (List Certificate)) (w' : World),
      (Ca.renewalHistory c).Returns (Sem.under historyExec (steady fun _ => true)) w r w') ∧
    (CompleteHistory w c ↔ WithinHops w.ca c) := by
  refine ⟨returns_renewalHistory w c, ?_⟩
  rw [completeHistory_iff]
  constructor
  · rintro ⟨hchain, hsame⟩
    obtain ⟨back, ahead, hlines⟩ := exists_lines hw.lineage hc
    obtain ⟨hback, hahead⟩ := (chained_iff hw.lineage hc hlines _).mp hchain
    refine ⟨back, ahead, hlines, hback, hahead, fun hu => ?_⟩
    exact (hlines.around_same_iff (fun a b ha hb => replacement_of_predecessor hu ha hb)
      (fun a b ha hb => predecessor_of_replacement ha hb) hc hback hahead).mp (hsame hu)
  · rintro ⟨back, ahead, hlines, hback, hahead, hwhole⟩
    refine ⟨(chained_iff hw.lineage hc hlines _).mpr ⟨hback, hahead⟩, fun hu => ?_⟩
    exact (hlines.around_same_iff (fun a b ha hb => replacement_of_predecessor hu ha hb)
      (fun a b ha hb => predecessor_of_replacement ha hb) hc hback hahead).mpr (hwhole hu)

end Law

/-! ### One certificate, renewed time and again -/

section Samples

attribute [local instance] Go.asciiRuntime

attribute [local irreducible] Interleave.Prog.Returns

/-- The database after a call that is alone, or the one before where the call does not end. -/
def Samples.afterCall {α : Type} (x : Handler Go.Error α) (e : Env) (w : World) : World :=
  match x.run.evalWith exec e w with
  | some (_, w') => w'
  | none => w

/-- A certificate, and so many renewals of the last one. -/
def Samples.rotated : Nat → World
  | 0 => afterCall
      (replica.caSvc.issue { subject := { commonName := "host" }, profile := "client", days := 90 })
      { now := 100, pick := 1 } (installation root [])
  | n + 1 => afterCall (replica.caSvc.renew (n + 1) { caRef := "1", sameKey := true })
      { now := 100, pick := n + 2 } (rotated n)

theorem rotated_rotation (n : Nat) : Rotation (Samples.rotated n) := by
  induction n with
  | zero =>
    have hstart : Rotation (Samples.installation Samples.root []) := .start rfl
    unfold Samples.rotated Samples.afterCall
    split
    · next r w' h => exact .issue _ _ hstart (Interleave.Prog.returns_of_evalWith h)
    · exact hstart
  | succ n ih =>
    unfold Samples.rotated Samples.afterCall
    split
    · next r w' h => exact .renew _ _ _ ih (Interleave.Prog.returns_of_evalWith h)
    · exact ih

/-- Renewed twice, the certificate in the middle has the history of all three. -/
theorem middle_complete : ∃ c ∈ (Samples.rotated 2).ca.certificates.rows,
    c.renewedFrom = some 1 ∧ CompleteHistory (Samples.rotated 2) c := by
  have hlinks : ∃ b ∈ (Samples.rotated 2).ca.certificates.rows, b.renewedFrom = some 1 ∧
      ∃ a ∈ (Samples.rotated 2).ca.certificates.rows,
      ∃ c ∈ (Samples.rotated 2).ca.certificates.rows,
        predecessor (Samples.rotated 2).ca b = some a ∧
        predecessor (Samples.rotated 2).ca a = none ∧
        replacement (Samples.rotated 2).ca b = some c ∧
        replacement (Samples.rotated 2).ca c = none := by
    decide +kernel
  obtain ⟨b, hb, hrenewal, a, -, c, -, hback, hbegun, hahead, hended⟩ := hlinks
  refine ⟨b, hb, hrenewal, ((renewalHistory_complete (rotated_rotation 2) hb).2).mpr ?_⟩
  exact ⟨[a], [c], ⟨⟨hback, hbegun⟩, hahead, hended⟩, (by decide : 1 ≤ 64), (by decide : 1 ≤ 64),
    fun _ => (by decide : 2 ≤ 64)⟩

/-- A certificate behind `n` others, each a renewal of the one before, which can be renewed. -/
structure Samples.Renewed (n : Nat) (w : World) (c : Certificate) : Prop where
  rotation : Rotation w
  authority : root ∈ refMatches w.ca.cas "1"
  row : w.ca.certificates.get? c.id = some c
  pem : ∃ x, c.certPEM = some x ∧ x.subject = { commonName := "host" }
  sans : c.sans = []
  profile : c.profile = "client"
  key : ∃ key, c.keyEnc = some key ∧ key.Signs
  serials : ∀ r ∈ w.ca.certificates.rows, ∃ k ≤ n, r.serialHex = Pki.serialHex (k + 1)
  line : ∃ l, IsLine (predecessor w.ca) c l ∧ l.length = n

open Samples (root rootCert rootKey replica Renewed)

theorem serialHex_ne {m n : Nat} (h : m ≠ n) : Pki.serialHex m ≠ Pki.serialHex n := by
  intro heq
  have hm := Pki.serialFromHex_serialHex m
  rw [heq, Pki.serialFromHex_serialHex] at hm
  exact h (Int.ofNat.inj (Option.some.inj hm)).symm

/-- What is signed at a renewal. -/
def Samples.again (csr : Pki.CSR) (subject : Option Pki.Subject) : Pki.SignParams :=
  ⟨csr, rootCert, rootKey, .client, 90, none, subject, 0⟩

/-- How a certificate is renewed: with its key, under the root. -/
def Samples.renewal : Ca.RenewInput := { caRef := "1", days := 90, sameKey := true }

open Samples (again renewal)

/-- The request of a renewal and its material, for the same subject, without names. -/
theorem Samples.Renewed.request {n : Nat} {w : World} {c : Certificate} {x : Pki.X509}
    (h : Renewed n w c) (hsubject : x.subject = { commonName := "host" }) : ∃ request m,
      Ca.renewalRequest replica.caSvc renewal c "1" 90 (Pki.subjectFromPKIX x.subject) =
        .ok request ∧
      Requested renewal c "1" 90 (Pki.subjectFromPKIX x.subject) request ∧
      (replica.caSvc.keyMaterial request).Returns (Sem.under exec (steady (· == 100))) w (.ok m) w ∧
      request.sanOverride = .ok none ∧ m.csr.sans = {} ∧ (∃ key, m.key = some key ∧ key.Signs) ∧
      (again m.csr request.subjectOverride).subject = { commonName := "host" } := by
  obtain ⟨key, hkey, hsigns⟩ := h.key
  have hread : Pki.parseSANs c.sans = .ok {} := by
    rw [h.sans]
    rfl
  obtain ⟨request, hrequest, hreq, hmode, hnames, hcsr, hown⟩ := renewalRequest_same
    replica.caSvc (i := renewal) "1" 90 (Pki.subjectFromPKIX x.subject) rfl hkey hsigns hread
  have hmode := effectiveMode_of_mode hmode (by decide)
  refine ⟨request, ⟨Pki.requestFor key (Pki.subjectFromPKIX x.subject) {}, some key,
    Pki.keyTypeOf key.publicKey⟩, hrequest, hreq, ?_, ?_, rfl, ⟨key, rfl, hsigns⟩, ?_⟩
  · unfold Ca.Service.keyMaterial
    rw [hmode]
    exact returns_ofExcept.mpr ⟨suppliedRequest_eq hcsr hown hsigns rfl, rfl⟩
  · unfold Ca.IssueInput.sanOverride
    rw [if_neg fun h => h.2 hnames]
  · have hoverride : request.subjectOverride = none ∨
        request.subjectOverride = some (Pki.subjectFromPKIX x.subject) := by
      unfold Ca.IssueInput.subjectOverride
      rw [hreq.subject]
      split
      · exact .inr rfl
      · exact .inl rfl
    rw [subject_of_override (n := x.subject) rfl hoverride, hsubject]
    rfl

/-- The root signs such a request under any serial. -/
theorem Samples.again_signed {csr : Pki.CSR} {o : Option Pki.Subject} (hsans : csr.sans = {})
    (hsubject : (again csr o).subject = { commonName := "host" }) (serial : Nat) : ∃ x,
      Pki.x509CreateCertificate ((again csr o).template serial 100
        ((100 : Time).addDays (again csr o).lifetime)) (some rootCert) csr.publicKey rootKey "" =
          .ok x ∧
      x.serialNumber = serial ∧ x.subject = { commonName := "host" } ∧ x.sans = {} := by
  have hnames : (again csr o).sans = {} := by
    unfold Pki.SignParams.sans
    refine (if_neg fun hserver => absurd hserver.2.2 ?_).trans hsans
    exact (by decide : Pki.Profile.client ∉ [Pki.Profile.server, .serverCli])
  have hlife : (again csr o).lifetime = 90 := rfl
  obtain ⟨hlen, hserial, hzero⟩ := template_leaf (again csr o) serial 100
    ((100 : Time).addDays (again csr o).lifetime) rfl
  obtain ⟨x, hx, hnumber⟩ := exists_x509CreateCertificate csr.publicKey "" hlen hzero
    (by rw [Pki.template_sans, hnames]; nofun) (rfl : rootCert.publicKey = rootKey.publicKey) (by
      rw [Pki.template_notBefore, Pki.template_notAfter, hlife]
      decide +kernel)
  obtain ⟨-, hxsubject, -, -, -, -, hxsans, -⟩ := Pki.x509CreateCertificate_ok hx
  rw [Pki.template_subject, hsubject] at hxsubject
  rw [Pki.template_sans, hnames] at hxsans
  exact ⟨x, hx, hnumber.trans hserial, hxsubject, hxsans⟩

/-- What is stored with such columns and linked to such a certificate is one behind it. -/
theorem Samples.Renewed.linked {n : Nat} {w w' : World} {c d : Certificate} (h : Renewed n w c)
    (hrotation : Rotation w')
    (htables : w'.ca = (w.ca.withCertificate d).updateCertificates
      (·.id == w.ca.certificates.seq + 1) (fun r => { r with renewedFrom := some c.id })
        fun _ => rfl)
    (hpem : ∃ x, d.certPEM = some x ∧ x.subject = { commonName := "host" }) (hsans : d.sans = [])
    (hprofile : d.profile = "client") (hkey : ∃ key, d.keyEnc = some key ∧ key.Signs)
    (hserial : d.serialHex = Pki.serialHex (n + 2)) : ∃ c', Renewed (n + 1) w' c' := by
  have hold (id : Nat) (q : Certificate) (hq : w.ca.certificates.get? id = some q) :
      w'.ca.certificates.get? id = some q := by
    have hbound := w.ca.certificates.bounded q (Table.mem_of_get? hq)
    change q.id ≤ w.ca.certificates.seq at hbound
    rw [htables, get?_updateCertificates, get?_withCertificate_of_some hq, Option.map_some,
      if_neg fun heq => absurd (beq_iff_eq.mp heq) (by omega)]
  obtain ⟨l, hline, hlength⟩ := h.line
  refine ⟨{ d.stored (w.ca.certificates.seq + 1) with renewedFrom := some c.id }, hrotation, ?_, ?_,
    hpem, hsans, hprofile, hkey, ?_, c :: l, ⟨hold c.id c h.row, ?_⟩,
    by rw [List.length_cons, hlength]⟩
  · rw [htables]
    exact h.authority
  · rw [htables, get?_updateCertificates]
    refine (congrArg _ (get?_withCertificate _ _)).trans ?_
    rw [Option.map_some]
    exact congrArg some (if_pos (beq_self_eq_true _))
  · intro r hr
    rw [htables] at hr
    obtain ⟨r₀, hr₀, rfl⟩ := List.mem_map.mp hr
    have hhex : (if (r₀.id == w.ca.certificates.seq + 1) = true then
        { r₀ with renewedFrom := some c.id } else r₀).serialHex = r₀.serialHex := by
      split
      · rfl
      · rfl
    rw [hhex]
    rcases List.mem_append.mp hr₀ with hr₀ | hr₀
    · obtain ⟨k, hk, heq⟩ := h.serials r₀ hr₀
      exact ⟨k, by omega, heq⟩
    · rw [List.mem_singleton.mp hr₀]
      exact ⟨n + 1, le_refl _, hserial⟩
  · exact isLine_of_kept h.rotation.lineage hold (Table.mem_of_get? h.row) hline

theorem inserted_profile (i : Ca.IssueInput) (row : CA) (p : Pki.Profile) (m : Ca.KeyMaterial)
    (x : Pki.X509) (t : Time) : (inserted (i.record row p m x) t).profile = p.text :=
  nz_profile p

/-- It can be renewed, and the replacement in turn. -/
theorem Samples.Renewed.succ {n : Nat} {w : World} {c : Certificate} (h : Renewed n w c)
    (hn : n + 2 ≤ 2 ^ 127) : ∃ w' c', Renewed (n + 1) w' c' := by
  have ht : ((100 : Time) == 100) = true := rfl
  obtain ⟨x, hpem, hsubject⟩ := h.pem
  obtain ⟨request, m, hrequest, hreq, hm, hsans, hnames, ⟨key, hkey, hsigns⟩, hsame⟩ :=
    h.request hsubject
  obtain ⟨x', hx', hnumber, hsubject', hnames'⟩ := Samples.again_signed hnames hsame (n + 2)
  have hdays : issuanceDays replica.caSvc request = 90 := by
    unfold issuanceDays
    rw [hreq.days]
    rfl
  have hfits : ((100 : Time).addDays (again m.csr request.subjectOverride).lifetime).after
      rootCert.notAfter = false := by
    have hlife : (again m.csr request.subjectOverride).lifetime = 90 := rfl
    rw [hlife]
    decide +kernel
  have hprofile : Pki.parseProfile request.profile = .ok .client := by
    rw [hreq.profile, h.profile]
    exact parseProfile_text .client
  have hconflict : w.ca.certConflict (inserted (request.record root .client m x') 100) = none := by
    refine certConflict_of_free ?_ fun r hr _ => ?_
    · have hroot := Table.get?_of_mem (mem_of_refMatches h.authority)
      intro hnone
      exact absurd (hroot.symm.trans hnone) (Option.some_ne_none _)
    · obtain ⟨k, hk, hhex⟩ := h.serials r hr
      rw [hhex]
      show _ ≠ Pki.serialHex x'.serialNumber
      rw [hnumber]
      exact serialHex_ne (by omega)
  obtain ⟨res, v, hissue, hstored, htables⟩ : ∃ r w',
      (replica.caSvc.issue request).Returns (Sem.under exec (steady (· == 100))) w (.ok r) w' ∧
        r.certificate = (inserted (request.record root .client m x') 100).stored
          (w.ca.certificates.seq + 1) ∧
        w'.ca = w.ca.withCertificate (inserted (request.record root .client m x') 100) :=
    returns_issue (P := (· == 100)) (t := 100) (by decide) ht (hreq.caRef ▸ h.authority)
      (by decide) rfl rfl hprofile nofun hm hsans (by rw [hdays]; rfl) rfl (by decide)
      ⟨by omega, hn⟩ hfits hx' hconflict
  have hchosen : (Ca.renewalIssuer renewal c).Returns (Sem.under exec (steady (· == 100))) w
      (.ok "1") w := by
    have htrimmed : Go.trimSpace renewal.caRef = "1" := by decide +kernel
    unfold Ca.renewalIssuer
    rw [htrimmed, if_pos (by decide)]
    exact returns_pure.mpr ⟨rfl, rfl⟩
  obtain ⟨r, w', hrenew, hkept⟩ := returns_renew_of_issue (P := (· == 100)) (t := 100)
    (by decide) ht h.row hpem hchosen hrequest hissue htables
  have hnew : res.certificate.id = w.ca.certificates.seq + 1 := by
    rw [hstored]
    rfl
  have hstores : request.storeKey = some true := by
    obtain ⟨key₀, hkey₀, _⟩ := h.key
    rw [hreq.storeKey]
    show some c.hasKey = _
    unfold Certificate.hasKey
    rw [hkey₀]
    rfl
  refine ⟨w', h.linked (.renew _ _ _ h.rotation hrenew.of_under) ?_ ⟨x', rfl, hsubject'⟩ ?_
    (inserted_profile request root .client m x' 100) ⟨key, ?_, hsigns⟩
    (congrArg Pki.serialHex hnumber)⟩
  · rw [hkept rfl, htables, hnew]
  · show x'.sans.strings = []
    rw [hnames']
    rfl
  · show (if request.storeKey.getD true = true then m.key else none) = some key
    rw [hstores, hkey]
    rfl

/-- As many as there are serials can be renewed one after the other. -/
theorem exists_renewed {n : Nat} (hn : n + 1 ≤ 2 ^ 127) : ∃ w c, Renewed n w c := by
  induction n with
  | zero =>
    have hfirst : ((Samples.rotated 0).ca.certificates.get? 1).any (fun c =>
          decide (c.sans = [] ∧ c.profile = "client" ∧ c.serialHex = Pki.serialHex 1 ∧
            c.renewedFrom = none) && c.certPEM.any (·.subject == { commonName := "host" }) &&
              c.keyEnc.any fun k => decide k.Signs) = true ∧
        (Samples.rotated 0).ca.certificates.rows.length = 1 ∧
        root ∈ refMatches (Samples.rotated 0).ca.cas "1" := by
      decide +kernel
    obtain ⟨hstored, hlength, hroot⟩ := hfirst
    obtain ⟨c, hget, hfacts⟩ := (Option.any_eq_true _ _).mp hstored
    obtain ⟨hfacts, hkey⟩ := Bool.and_eq_true_iff.mp hfacts
    obtain ⟨hfacts, hpem⟩ := Bool.and_eq_true_iff.mp hfacts
    obtain ⟨hsans, hprofile, hserial, hlink⟩ := of_decide_eq_true hfacts
    obtain ⟨x, hx, hsubject⟩ := (Option.any_eq_true _ _).mp hpem
    obtain ⟨key, hkey, hsigns⟩ := (Option.any_eq_true _ _).mp hkey
    have hc := Table.mem_of_get? hget
    obtain ⟨d, hrows⟩ := List.length_eq_one_iff.mp hlength
    refine ⟨Samples.rotated 0, c, rotated_rotation 0, hroot, ?_, ⟨x, hx, beq_iff_eq.mp hsubject⟩,
      hsans, hprofile, ⟨key, hkey, of_decide_eq_true hsigns⟩, ?_, [], ?_, rfl⟩
    · exact Table.get?_of_mem hc
    · intro r hr
      rw [hrows] at hr hc
      rw [List.mem_singleton.mp hr, ← List.mem_singleton.mp hc]
      exact ⟨0, le_refl 0, hserial⟩
    · show predecessor _ c = none
      unfold predecessor
      rw [hlink]
      rfl
  | succ n ih =>
    obtain ⟨w, c, h⟩ := ih (by omega)
    exact h.succ hn

/-- Renewed sixty-five times, the certificate that is left has a history that begins with a
renewal. -/
theorem rotated_incomplete : ¬ ∀ w, Rotation w → ∀ c ∈ w.ca.certificates.rows,
    CompleteHistory w c := by
  intro hall
  obtain ⟨w, c, h⟩ := exists_renewed (n := 65) (by decide)
  have hc := Table.mem_of_get? h.row
  obtain ⟨back, ahead, hlines, hback, -⟩ :=
    (renewalHistory_complete h.rotation hc).2.mp (hall w h.rotation c hc)
  obtain ⟨l, hline, hlength⟩ := h.line
  have hsame : back.take 65 = l.take 65 :=
    (hlines.back.after_eq 65).symm.trans (hline.after_eq 65)
  have htaken := congrArg List.length hsame
  rw [List.length_take, List.length_take, hlength] at htaken
  have hback : back.length ≤ 64 := hback
  omega

end Samples

end Goca
