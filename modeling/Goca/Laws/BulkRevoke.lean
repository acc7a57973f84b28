import Goca.Laws.Footprint
import Goca.Laws.Search

/-!
# Bulk revocation

`BulkRevoke` takes the certificates that are named and those that a search finds, and revokes one
after the other. Its search is one page: where the filter names no limit a thousand rows are taken,
and what matches behind them stays as it is. A certificate that is named twice is revoked and then
reported as an error, and a filter that asks for certificates in use finds none of those it took the
time before.

A call that nobody interferes with is taken apart once: `bulkRevoke_returns` says which rows it
revokes and how many it reports. The law follows for the call and for the one that repeats it.
-/

set_option autoImplicit false

namespace Goca.Ca

open Go (Time)
open Goca.Store hiding createCA setCAStatus setDefaultCA
open Interleave (Act Sem)
open Interleave.Act

section Audit

variable [Go.Runtime] {ε : Type} {w w' : World}

/-- The audit row may be lost, the call goes on. -/
theorem audit_under {s : Service} {actor action target detail : String} {q : Env → Bool}
    {r : Except ε Unit}
    (h : (s.audit actor action target detail).Returns (Sem.under exec q) w r w') :
    w' = w ∧ r = .ok () := by
  unfold Service.audit Service.recordAudit at h
  obtain ⟨a, v, ⟨e, y, u, hy, -, rfl⟩, hrest⟩ := returns_attempt_bind.mp h
  replace hy := (Sem.under_eq_some.mp hy).2
  unfold exec at hy
  split at hy
  · cases hy
    split at hrest
    · obtain ⟨e', y', u', hy', rfl, rfl⟩ := hrest
      obtain ⟨-, hsink⟩ := exec_host (Sem.under_eq_some.mp hy').2
      cases hsink
      exact ⟨rfl, rfl⟩
    · obtain ⟨rfl, rfl⟩ := returns_pure_any.mp hrest
      exact ⟨rfl, rfl⟩
  · cases hy

end Audit

-- From here on a call is taken apart by the rules, never by running it.
attribute [local irreducible] Interleave.Prog.Returns

/-! ## The targets of a call -/

section Targets

variable [Go.Runtime]

/-- The rows that the search of a bulk revocation takes. -/
def taken (f : CertFilter) (t : Time) (rows : List Certificate) : List Certificate :=
  ((f.matches t rows).drop f.offset.toNat).take (if f.limit ≤ 0 then 1000 else f.limit).toNat

/-- The rows that a bulk revocation finds beside those that are named. -/
def BulkRevokeInput.found (i : BulkRevokeInput) (t : Time) (rows : List Certificate) :
    List Certificate :=
  match i.filter with
  | none => []
  | some f => taken f t rows

/-- The certificates that a bulk revocation is about, by number. -/
def BulkRevokeInput.targets (i : BulkRevokeInput) (t : Time) (rows : List Certificate) :
    List Nat := i.ids ++ (i.found t rows).map (·.id)

/-- The filter finds no certificate that is revoked. -/
def AsksForUnrevoked (f : CertFilter) : Prop :=
  f.status = "active" ∨ f.status = "expired" ∨ 0 < f.expiringIn

/-- The search of a bulk revocation with the limit of its filter, or a thousand. -/
def limited (f : CertFilter) : CertFilter :=
  { f with limit := if f.limit ≤ 0 then 1000 else f.limit }

theorem page_limited (f : CertFilter) (t : Time) (rows : List Certificate) :
    (limited f).page t rows = taken f t rows := by
  have hlimit : (if (limited f).limit ≤ 0 then 50 else (limited f).limit) =
      if f.limit ≤ 0 then 1000 else f.limit := by
    unfold limited
    dsimp only
    split_ifs <;> omega
  unfold CertFilter.page
  rw [hlimit]
  rfl

theorem mem_of_mem_taken {f : CertFilter} {t : Time} {rows : List Certificate} {c : Certificate}
    (h : c ∈ taken f t rows) : c ∈ rows ∧ f.selects t c = true := by
  exact mem_of_mem_matches (List.mem_of_mem_drop (List.mem_of_mem_take h))

theorem mem_of_mem_found {i : BulkRevokeInput} {t : Time} {rows : List Certificate}
    {c : Certificate} (h : c ∈ i.found t rows) : c ∈ rows := by
  unfold BulkRevokeInput.found at h
  split at h
  · exact absurd h List.not_mem_nil
  · exact (mem_of_mem_taken h).1

/-- A row is found once. -/
theorem nodup_found (i : BulkRevokeInput) (t : Time) (rows : Sql.Table Certificate) :
    ((i.found t rows.rows).map (·.id)).Nodup := by
  unfold BulkRevokeInput.found
  split
  · exact List.nodup_nil
  · next f hf =>
    refine (nodup_matches f t rows).sublist ?_
    exact ((List.take_sublist _ _).trans (List.drop_sublist _ _)).map _

end Targets

/-! ## What revoking does to the rows -/

/-- What revoking certificates makes of each row: the listed ones are revoked, where they were not,
and all else stays. -/
structure Marks (ids : List Nat) (mark : Certificate → Certificate) : Prop where
  kept : ∀ c, mark c = { c with
    status := (mark c).status
    revokedAt := (mark c).revokedAt
    revokeCode := (mark c).revokeCode }
  revoked : ∀ c, c.status = .revoked → mark c = c
  others : ∀ c, c.id ∉ ids → mark c = c
  listed : ∀ c, c.id ∈ ids → (mark c).status = .revoked

section Marks

variable {ids ids' : List Nat} {mark mark' : Certificate → Certificate}

theorem Marks.id_eq (h : Marks ids mark) (c : Certificate) : (mark c).id = c.id := by
  rw [h.kept c]

theorem marks_nil : Marks [] id where
  kept _ := rfl
  revoked _ _ := rfl
  others _ _ := rfl
  listed _ h := absurd h List.not_mem_nil

/-- Revoking more certificates. -/
theorem Marks.append (h : Marks ids mark) (h' : Marks ids' mark') :
    Marks (ids ++ ids') (mark' ∘ mark) where
  kept c := by
    rw [Function.comp_apply]
    generalize hm : mark' (mark c) = m
    have hkept := h'.kept (mark c)
    rw [hm, h.kept c] at hkept
    exact hkept
  revoked c hc := by
    rw [Function.comp_apply, h.revoked c hc, h'.revoked c hc]
  others c hc := by
    rw [List.mem_append, not_or] at hc
    rw [Function.comp_apply, h.others c hc.1, h'.others c hc.2]
  listed c hc := by
    rw [Function.comp_apply]
    rcases List.mem_append.mp hc with hc | hc
    · rw [h'.revoked _ (h.listed c hc)]
      exact h.listed c hc
    · exact h'.listed _ (by rwa [h.id_eq])

/-- What one update makes of each row. -/
def markOne (id : Nat) (now : Time) (reason : Int) (c : Certificate) : Certificate :=
  if c.unrevoked id then c.revoke now reason else c

theorem marks_one (id : Nat) (now : Time) (reason : Int) : Marks [id] (markOne id now reason) where
  kept c := by
    unfold markOne
    split <;> rfl
  revoked c hc := by
    unfold markOne Certificate.unrevoked
    rw [if_neg]
    simp [hc]
  others c hc := by
    unfold markOne Certificate.unrevoked
    rw [if_neg]
    simp [List.mem_singleton.not.mp hc]
  listed c hc := by
    unfold markOne Certificate.unrevoked
    rw [List.mem_singleton.mp hc]
    by_cases hrevoked : c.status = .revoked
    · rw [if_neg (by simp [hrevoked])]
      exact hrevoked
    · rw [if_pos (by simp [hrevoked])]
      rfl

end Marks

/-! ## Steady runs -/

section Runs

variable [Go.Runtime] {ε α : Type} {w w' : World} {P : Time → Bool} {t : Time}

/-- Behind a statement that only reads the run goes on with its answer. -/
theorem read_bind_steady {s : CaStmt} {x : Env → s.Res}
    (hs : ∀ e, w.ca.exec e s = (.ok (x e), w.ca))
    {f : s.Res → Handler Go.Error α} {r : Except Go.Error α}
    (h : ((ca s) >>= f).Returns (Sem.under exec (steady P)) w r w') :
    ∃ e, P e.now = true ∧ (f (x e)).Returns (Sem.under exec (steady P)) w r w' := by
  rcases returns_bind_any.mp h with ⟨a, v, ha, hrest⟩ | ⟨err, rfl, herr⟩
  · obtain ⟨hv, e, hP, heq⟩ := read_steady hs ha
    cases heq
    subst hv
    exact ⟨e, hP, hrest⟩
  · obtain ⟨-, e, -, heq⟩ := read_steady hs herr
    cases heq

theorem getCertificate_steady {id : Nat} {r : Except Go.Error Certificate}
    (h : (getCertificate id).Returns (Sem.under exec (steady P)) w r w') :
    w' = w ∧ r = row (.ok (w.ca.certificates.get? id)) := by
  unfold getCertificate at h
  obtain ⟨x, hx, rfl⟩ := returns_mapResult.mp h
  obtain ⟨hw, e, -, rfl⟩ := read_steady (fun _ => rfl) hx
  exact ⟨hw, rfl⟩

/-- The named certificates are read one by one, up to the first that is not there. -/
theorem targetsByID_steady {ids : List Nat} {r : Except Go.Error (List Certificate)}
    (h : (targetsByID ids).Returns (Sem.under exec (steady P)) w r w') :
    w' = w ∧ ((∃ l, r = .ok l ∧ l.map some = ids.map w.ca.certificates.get?) ∨
      (∃ e, r = .error e) ∧ ∃ id ∈ ids, w.ca.certificates.get? id = none) := by
  induction ids generalizing r w' with
  | nil =>
    obtain ⟨rfl, rfl⟩ := returns_pure_any.mp h
    exact ⟨rfl, .inl ⟨[], rfl, rfl⟩⟩
  | cons id ids ih =>
    unfold targetsByID at h
    rcases returns_bind_any.mp h with ⟨c, v, hc, hrest⟩ | ⟨err, rfl, herr⟩
    · obtain ⟨rfl, hrow⟩ := getCertificate_steady (returns_mapError.mp hc)
      have hget : v.ca.certificates.get? id = some c := by
        cases hget : v.ca.certificates.get? id with
        | none =>
          rw [hget] at hrow
          cases hrow
        | some c' =>
          rw [hget] at hrow
          cases hrow
          rfl
      rcases returns_bind_any.mp hrest with ⟨l, u, hl, hpure⟩ | ⟨err, rfl, herr⟩
      · obtain ⟨rfl, ⟨l', heq, hmap⟩ | ⟨⟨_, heq⟩, -⟩⟩ := ih hl
        · cases heq
          obtain ⟨rfl, rfl⟩ := returns_pure_any.mp hpure
          refine ⟨rfl, .inl ⟨c :: l, rfl, ?_⟩⟩
          rw [List.map_cons, List.map_cons, hmap, hget]
        · cases heq
      · obtain ⟨rfl, ⟨l', heq, -⟩ | ⟨-, id', hid', hnone⟩⟩ := ih herr
        · cases heq
        · exact ⟨rfl, .inr ⟨⟨err, rfl⟩, id', List.mem_cons_of_mem _ hid', hnone⟩⟩
    · obtain ⟨x, hx, heq⟩ := returns_mapResult.mp herr
      obtain ⟨rfl, rfl⟩ := getCertificate_steady hx
      refine ⟨rfl, .inr ⟨⟨err, rfl⟩, id, List.mem_cons_self, ?_⟩⟩
      cases hget : w'.ca.certificates.get? id with
      | none => rfl
      | some c =>
        rw [hget] at heq
        cases heq

/-- A search comes back with the page of some time that the clock shows. -/
theorem searchCertificates_steady {f : CertFilter} {r : Except Go.Error (List Certificate × Nat)}
    (h : (searchCertificates f).Returns (Sem.under exec (steady P)) w r w') :
    w' = w ∧ ∃ t, P t = true ∧
      r = .ok (f.page t w.ca.certificates.rows, w.ca.certificates.count (f.selects t)) := by
  unfold searchCertificates at h
  obtain ⟨t, v, ht, h⟩ := returns_now_bind.mp h
  obtain ⟨e, he, rfl⟩ := now_under ht
  obtain ⟨-, rfl⟩ := Pki.now_returns.mp ht.of_under
  obtain ⟨_, -, h⟩ := read_bind_steady (fun _ => rfl) h
  obtain ⟨_, -, h⟩ := read_bind_steady (fun _ => rfl) h
  obtain ⟨rfl, rfl⟩ := returns_pure_any.mp h
  exact ⟨rfl, e.now, (steady_iff.mp he).2, rfl⟩

/-- The certificates that are found and not named. -/
def added (named found : List Certificate) : List Certificate :=
  found.filter fun c => !(named.any (·.id == c.id))

/-- The targets of the search join those that are named. -/
theorem targetsByFilter_steady {i : BulkRevokeInput} {named : List Certificate}
    (hP : ∀ f, i.filter = some f → ∀ u, P u = true → ∀ c ∈ w.ca.certificates.rows,
      f.selects u c = f.selects t c) {r : Except Go.Error (List Certificate)}
    (h : (targetsByFilter named i.filter).Returns (Sem.under exec (steady P)) w r w') :
    w' = w ∧ r = .ok (named ++ added named (i.found t w.ca.certificates.rows)) := by
  unfold BulkRevokeInput.found
  cases hf : i.filter with
  | none =>
    rw [hf] at h
    obtain ⟨rfl, rfl⟩ := returns_pure_any.mp h
    exact ⟨rfl, congrArg Except.ok (List.append_nil named).symm⟩
  | some f =>
    rw [hf] at h
    unfold targetsByFilter at h
    rcases returns_bind_any.mp h with ⟨a, v, ha, hpure⟩ | ⟨err, rfl, herr⟩
    · obtain ⟨rfl, u, hu, heq⟩ := searchCertificates_steady ha
      cases heq
      obtain ⟨rfl, rfl⟩ := returns_pure_any.mp hpure
      refine ⟨rfl, ?_⟩
      have hpage : (limited f).page u v.ca.certificates.rows =
          taken f t v.ca.certificates.rows := by
        rw [page_limited]
        unfold taken
        rw [matches_congr (hP f hf u hu)]
      exact congrArg (fun l => Except.ok (named ++ added named l)) hpage
    · obtain ⟨-, u, -, heq⟩ := searchCertificates_steady herr
      cases heq

/-- A revocation rewrites the row that it finds. -/
theorem revokeCertificate_steady {id : Nat} {reason : Int} {r : Except Go.Error Unit}
    (h : (revokeCertificate id reason).Returns (Sem.under exec (steady P)) w r w') :
    ∃ now, w'.ca.certificates.rows = w.ca.certificates.rows.map (markOne id now reason) := by
  unfold revokeCertificate at h
  rcases returns_bind_any.mp h with ⟨n, v, hn, hcheck⟩ | ⟨err, rfl, herr⟩
  · obtain ⟨e, -, -, rfl⟩ := ca_steady hn
    refine ⟨e.now, ?_⟩
    rw [← returns_failIf_world hcheck]
    rfl
  · obtain ⟨e, -, heq, -⟩ := ca_steady herr
    cases heq

/-- How many certificates a result speaks of. -/
def BulkRevokeResult.size (out : BulkRevokeResult) : Nat :=
  out.revoked.length + out.skipped.length + out.errors.length

/-- **The loop**: every target is reported once, and those that were read as unrevoked are
revoked. -/
theorem revokeEach_steady {reason : Int} {l : List Certificate} {out : BulkRevokeResult}
    {r : Except ε BulkRevokeResult}
    (h : (revokeEach reason l out).Returns (Sem.under exec (steady P)) w r w') :
    ∃ out' mark, r = .ok out' ∧ out'.size = out.size + l.length ∧
      Marks ((l.filter (·.status != .revoked)).map (·.id)) mark ∧
      w'.ca.certificates.rows = w.ca.certificates.rows.map mark := by
  induction l generalizing out w with
  | nil =>
    obtain ⟨rfl, rfl⟩ := returns_pure_any.mp h
    exact ⟨out, id, rfl, rfl, marks_nil, (List.map_id _).symm⟩
  | cons c rest ih =>
    unfold revokeEach at h
    by_cases hc : c.status = .revoked
    · rw [if_pos hc] at h
      obtain ⟨out', mark, hr, hsize, hmark, hw⟩ := ih h
      refine ⟨out', mark, hr, ?_, ?_, hw⟩
      · rw [hsize]
        simp only [BulkRevokeResult.size, List.length_append, List.length_cons, List.length_nil]
        omega
      · rw [List.filter_cons_of_neg (by simp [hc])]
        exact hmark
    · rw [if_neg hc] at h
      obtain ⟨a, v, ha, hrest⟩ := returns_attempt_bind.mp h
      obtain ⟨now, hv⟩ := revokeCertificate_steady ha
      obtain ⟨out', mark, hr, hsize, hmark, hw⟩ := ih hrest
      refine ⟨out', mark ∘ markOne c.id now reason, hr, ?_, ?_, ?_⟩
      · rw [hsize]
        cases a with
        | error e =>
          simp only [BulkRevokeResult.size, List.length_append, List.length_cons,
            List.length_nil]
          omega
        | ok u =>
          simp only [BulkRevokeResult.size, List.length_append, List.length_cons,
            List.length_nil]
          omega
      · rw [List.filter_cons_of_pos (by simp [hc]), List.map_cons]
        exact (marks_one c.id now reason).append hmark
      · rw [hw, hv, List.map_map]

omit [Go.Runtime] in
/-- Targets that are revoked already are skipped. -/
theorem revokeEach_skips {reason : Int} {l : List Certificate} {out : BulkRevokeResult}
    (hl : ∀ c ∈ l, c.status = .revoked) {sem : Sem sig Env World} {r : Except ε BulkRevokeResult}
    (h : (revokeEach reason l out).Returns sem w r w') :
    w' = w ∧ ∃ out', r = .ok out' ∧ out'.errors = out.errors := by
  induction l generalizing out with
  | nil =>
    obtain ⟨rfl, rfl⟩ := returns_pure_any.mp h
    exact ⟨rfl, out, rfl, rfl⟩
  | cons c rest ih =>
    unfold revokeEach at h
    rw [if_pos (hl c List.mem_cons_self)] at h
    obtain ⟨hw, out', hr, herrors⟩ := ih (fun c hc => hl c (List.mem_cons_of_mem _ hc)) h
    exact ⟨hw, out', hr, herrors⟩

end Runs

/-! ## One call -/

section Call

variable [Go.Runtime] {s : Service} {i : BulkRevokeInput} {w w' : World} {P : Time → Bool}
  {t : Time} {out : BulkRevokeResult} {mark : Certificate → Certificate}

/-- The clock may run during a call, as long as no certificate comes into the filter or leaves
it. -/
structure Clocked (P : Time → Bool) (t : Time) (i : BulkRevokeInput) (w : World) : Prop where
  positive : 0 < t
  shown : P t = true
  settled : ∀ f, i.filter = some f → ∀ u, P u = true → ∀ c ∈ w.ca.certificates.rows,
    f.selects u c = f.selects t c

/-- What a bulk revocation that goes through does to the certificates. -/
structure RevokeRun (i : BulkRevokeInput) (t : Time) (w w' : World) (out : BulkRevokeResult)
    (mark : Certificate → Certificate) : Prop where
  named : ∀ id ∈ i.ids, ∃ c, w.ca.certificates.get? id = some c
  nonempty : i.targets t w.ca.certificates.rows ≠ []
  size : out.size = i.ids.length +
    (((i.found t w.ca.certificates.rows).map (·.id)).filter (· ∉ i.ids)).length
  kept : ∀ c, mark c = { c with
    status := (mark c).status
    revokedAt := (mark c).revokedAt
    revokeCode := (mark c).revokeCode }
  revoked : ∀ c, c.status = .revoked → mark c = c
  others : ∀ c, c.id ∉ i.targets t w.ca.certificates.rows → mark c = c
  listed : ∀ c ∈ w.ca.certificates.rows, c.id ∈ i.targets t w.ca.certificates.rows →
    (mark c).status = .revoked
  rows : w'.ca.certificates.rows = w.ca.certificates.rows.map mark

omit [Go.Runtime] in
/-- The certificates that are read by their numbers. -/
theorem map_id_of_read {ids : List Nat} {table : Sql.Table Certificate} {l : List Certificate}
    (h : l.map some = ids.map table.get?) : l.map (·.id) = ids ∧ ∀ c ∈ l, c ∈ table.rows := by
  induction ids generalizing l with
  | nil =>
    obtain rfl := List.map_eq_nil_iff.mp h
    exact ⟨rfl, fun c hc => absurd hc List.not_mem_nil⟩
  | cons id ids ih =>
    cases l with
    | nil => cases h
    | cons c l =>
      rw [List.map_cons, List.map_cons] at h
      obtain ⟨hc, hl⟩ := List.cons.inj h
      obtain ⟨hids, hmem⟩ := ih hl
      refine ⟨?_, List.forall_mem_cons.mpr ⟨Sql.Table.mem_of_get? hc.symm, hmem⟩⟩
      rw [List.map_cons, hids]
      exact congrArg (· :: ids) (Sql.Table.key_of_get? hc.symm)

omit [Go.Runtime] in
/-- The numbers of what is added to the named certificates. -/
theorem map_id_added {ids : List Nat} {named found : List Certificate}
    (h : named.map (·.id) = ids) :
    (added named found).map (·.id) = (found.map (·.id)).filter (· ∉ ids) := by
  unfold added
  rw [List.filter_map]
  refine congrArg (List.map _) (List.filter_congr fun c _ => ?_)
  have hany : named.any (·.id == c.id) = true ↔ c.id ∈ ids := by
    rw [← h, List.mem_map, List.any_eq_true]
    simp only [beq_iff_eq]
  rw [Function.comp_apply, Bool.eq_iff_iff, Bool.not_eq_true', ← Bool.not_eq_true, hany,
    decide_eq_true_iff]

/-- **What a bulk revocation does** in a run that nothing interferes with. -/
theorem bulkRevoke_returns (hclock : Clocked P t i w)
    (h : (s.bulkRevoke i).Returns (Sem.under exec (steady P)) w (.ok out) w') :
    ∃ mark, RevokeRun i t w w' out mark := by
  unfold Service.bulkRevoke at h
  obtain ⟨named, v, hnamed, h₁⟩ := returns_bind.mp h
  obtain ⟨rfl, ⟨_, heq, hread⟩ | ⟨⟨_, heq⟩, -⟩⟩ := targetsByID_steady hnamed
  swap
  · cases heq
  cases heq
  obtain ⟨targets, u, htargets, h₂⟩ := returns_bind.mp h₁
  obtain ⟨rfl, heq⟩ := targetsByFilter_steady hclock.settled htargets
  cases heq
  obtain ⟨_, u', hcheck, h₃⟩ := returns_bind.mp h₂
  obtain ⟨hsome, rfl⟩ := returns_failIf.mp hcheck
  obtain ⟨out', v', hloop, h₄⟩ := returns_bind.mp h₃
  obtain ⟨_, mark, heq, hsize, hmarks, hrows⟩ := revokeEach_steady hloop
  cases heq
  obtain ⟨_, w₁, haudit, h₅⟩ := returns_bind.mp h₄
  obtain ⟨rfl, -⟩ := audit_under haudit
  obtain ⟨rfl, rfl⟩ := returns_pure.mp h₅
  obtain ⟨hids, hnamedrows⟩ := map_id_of_read hread
  have hadded : (added named (i.found t u.ca.certificates.rows)).map (·.id) = _ :=
    map_id_added hids
  have hrow : ∀ c ∈ named ++ added named (i.found t u.ca.certificates.rows),
      c ∈ u.ca.certificates.rows := by
    intro c hc
    rcases List.mem_append.mp hc with hc | hc
    · exact hnamedrows c hc
    · exact mem_of_mem_found (List.mem_filter.mp hc).1
  have htarget : ∀ id, id ∈ (named ++ added named (i.found t u.ca.certificates.rows)).map (·.id) ↔
      id ∈ i.targets t u.ca.certificates.rows := by
    intro id
    unfold BulkRevokeInput.targets
    rw [List.map_append, List.mem_append, List.mem_append, hids, hadded, List.mem_filter,
      decide_eq_true_iff]
    tauto
  refine ⟨mark, ?_, ?_, ?_, hmarks.kept, hmarks.revoked, ?_, ?_, hrows⟩
  · intro id hid
    rw [← hids] at hid
    obtain ⟨c, hc, rfl⟩ := List.mem_map.mp hid
    exact ⟨c, Sql.Table.get?_of_mem (hnamedrows c hc)⟩
  · intro hnone
    obtain ⟨c, hc⟩ := List.exists_mem_of_ne_nil _ hsome
    have hmem := (htarget c.id).mp (List.mem_map_of_mem hc)
    rw [hnone] at hmem
    exact List.not_mem_nil hmem
  · rw [hsize, List.length_append, ← hadded, ← hids, List.length_map, List.length_map]
    simp [BulkRevokeResult.size]
  · intro c hc
    refine hmarks.others c fun hmem => hc ((htarget c.id).mp ?_)
    obtain ⟨c', hc', hid⟩ := List.mem_map.mp hmem
    exact List.mem_map.mpr ⟨c', (List.mem_filter.mp hc').1, hid⟩
  · intro c hc hmem
    obtain ⟨c', hc', hid⟩ := List.mem_map.mp ((htarget c.id).mpr hmem)
    obtain rfl := Sql.Table.eq_of_key_eq (hrow c' hc') hc hid
    by_cases hrevoked : c'.status = .revoked
    · rw [hmarks.revoked c' hrevoked]
      exact hrevoked
    · refine hmarks.listed c' (List.mem_map.mpr ⟨c', List.mem_filter.mpr ⟨hc', ?_⟩, rfl⟩)
      simpa using hrevoked

/-- A row that is targeted is one of the rows that were read. -/
theorem RevokeRun.mem_rows (h : RevokeRun i t w w' out mark) {c : Certificate} :
    c ∈ w'.ca.certificates.rows ↔ ∃ c' ∈ w.ca.certificates.rows, mark c' = c := by
  rw [h.rows, List.mem_map]

theorem RevokeRun.id_eq (h : RevokeRun i t w w' out mark) (c : Certificate) :
    (mark c).id = c.id := by
  rw [h.kept c]

/-- Unrevoked rows are those that were unrevoked and not targeted, and they are unchanged. -/
theorem RevokeRun.unrevoked (h : RevokeRun i t w w' out mark) {c : Certificate}
    (hc : c ∈ w.ca.certificates.rows) (hmark : (mark c).status ≠ .revoked) :
    c.status ≠ .revoked ∧ c.id ∉ i.targets t w.ca.certificates.rows ∧ mark c = c := by
  have htarget : c.id ∉ i.targets t w.ca.certificates.rows := fun hmem => hmark (h.listed c hc hmem)
  refine ⟨fun hrevoked => hmark ?_, htarget, h.others c htarget⟩
  rw [h.revoked c hrevoked]
  exact hrevoked

end Call

/-! ## The law -/

section Law

variable [Go.Runtime] {s : Service} {i : BulkRevokeInput} {w w' : World} {P : Time → Bool}
  {t t' : Time} {out : BulkRevokeResult} {mark : Certificate → Certificate}

/-- The caller names no limit: `BulkRevoke` fills in a thousand, and so does the API. -/
def Unlimited (f : CertFilter) : Prop := f.limit ≤ 0 ∨ f.limit = 1000

/-- **Covered**: where the filter names no limit, no certificate that matches it is left
unrevoked. -/
def Covered (i : BulkRevokeInput) (t : Time) (w' : World) : Prop :=
  ∀ f, i.filter = some f → Unlimited f → ∀ c ∈ w'.ca.certificates.rows,
    f.selects t c = true → c.status = .revoked

/-- **Tallied**: what is reported as revoked, skipped and failed adds up to the distinct targets. -/
def Tallied (i : BulkRevokeInput) (t : Time) (w : World) (out : BulkRevokeResult) : Prop :=
  out.revoked.length + out.skipped.length + out.errors.length =
    (i.targets t w.ca.certificates.rows).dedup.length

/-- **Repeatable**: the same call once more changes nothing and reports no error. -/
def Repeatable (s : Service) (i : BulkRevokeInput) (P : Time → Bool) (w : World) : Prop :=
  ∀ r w', (s.bulkRevoke i).Returns (Sem.under exec (steady P)) w r w' →
    w' = w ∧ ∃ out, r = .ok out ∧ out.errors = []

/-- Every unrevoked match is named or among the thousand rows of the search. -/
def InReach (i : BulkRevokeInput) (t : Time) (w : World) : Prop :=
  ∀ f, i.filter = some f → Unlimited f → ∀ c ∈ w.ca.certificates.rows, f.selects t c = true →
    c.status = .revoked ∨ c.id ∈ i.targets t w.ca.certificates.rows

/-- What matches when the call is repeated and is no target of the first one. -/
def remaining (i : BulkRevokeInput) (f : CertFilter) (t t' : Time) (w : World) :
    List Certificate :=
  w.ca.certificates.rows.filter fun c =>
    f.selects t' c && decide (c.id ∉ i.targets t w.ca.certificates.rows)

/-- A filter that asks for unrevoked certificates comes with named ones, and no more rows match it
again than its offset skips. -/
def Spent (i : BulkRevokeInput) (t t' : Time) (w : World) : Prop :=
  ∀ f, i.filter = some f → AsksForUnrevoked f →
    i.ids ≠ [] ∧ (remaining i f t t' w).length ≤ f.offset.toNat

/-- The search leaves nothing that matches exactly when all of it is in reach. -/
theorem covered_iff (h : RevokeRun i t w w' out mark) : Covered i t w' ↔ InReach i t w := by
  constructor
  · intro hcovered f hf hlimit c hc hsel
    by_contra hnot
    rw [not_or] at hnot
    have hmark : mark c = c := h.others c hnot.2
    exact hnot.1 (hcovered f hf hlimit c (h.mem_rows.mpr ⟨c, hc, hmark⟩) hsel)
  · intro hreach f hf hlimit c' hc' hsel
    obtain ⟨c, hc, rfl⟩ := h.mem_rows.mp hc'
    by_contra hmark
    obtain ⟨hstatus, htarget, heq⟩ := h.unrevoked hc hmark
    rw [heq] at hsel
    exact (hreach f hf hlimit c hc hsel).elim hstatus htarget

/-- The counts add up exactly when no certificate is named twice. -/
theorem tallied_iff (h : RevokeRun i t w w' out mark) : Tallied i t w out ↔ i.ids.Nodup := by
  have hfound := (nodup_found i t w.ca.certificates).filter (· ∉ i.ids)
  have hsize := h.size
  unfold Tallied
  unfold BulkRevokeResult.size at hsize
  unfold BulkRevokeInput.targets
  generalize (i.found t w.ca.certificates.rows).map (·.id) = found at hfound hsize
  -- The targets without repetition are those that are named and those that are added.
  have hperm : (i.ids ++ found).dedup.Perm (i.ids.dedup ++ found.filter (· ∉ i.ids)) := by
    refine (List.perm_ext_iff_of_nodup (List.nodup_dedup _) ?_).mpr fun id => ?_
    · refine (List.nodup_dedup _).append hfound fun id hid hid' => ?_
      exact of_decide_eq_true (List.mem_filter.mp hid').2 (List.mem_dedup.mp hid)
    · rw [List.mem_dedup, List.mem_append, List.mem_append, List.mem_dedup, List.mem_filter,
        decide_eq_true_iff]
      tauto
  rw [hsize, hperm.length_eq, List.length_append, Nat.add_right_cancel_iff]
  constructor
  · intro hlength
    exact List.dedup_eq_self.mp ((List.dedup_sublist i.ids).eq_of_length hlength.symm)
  · intro hnodup
    rw [hnodup.dedup]

/-- A filter that asks for unrevoked certificates selects no other. -/
theorem unrevoked_of_selects {f : CertFilter} {c : Certificate} (hf : AsksForUnrevoked f)
    (h : f.selects t c = true) : c.status ≠ .revoked := by
  intro hrevoked
  unfold CertFilter.selects at h
  rw [Bool.and_eq_true, Bool.and_eq_true] at h
  obtain ⟨⟨-, hstatus⟩, hexpiring⟩ := h
  unfold CertFilter.statusMatches at hstatus
  rcases hf with hactive | hexpired | hwithin
  · rw [if_pos hactive, hrevoked] at hstatus
    simp at hstatus
  · rw [if_neg (by rw [hexpired]; decide), if_pos hexpired, hrevoked] at hstatus
    simp at hstatus
  · rw [hrevoked, decide_eq_false (not_le.mpr hwithin)] at hexpiring
    simp at hexpiring

/-- A filter that asks for revoked certificates selects no other. -/
theorem revoked_of_selects {f : CertFilter} {c : Certificate} (hf : f.status = "revoked")
    (h : f.selects t c = true) : c.status = .revoked := by
  unfold CertFilter.selects at h
  rw [Bool.and_eq_true, Bool.and_eq_true] at h
  obtain ⟨⟨-, hstatus⟩, -⟩ := h
  unfold CertFilter.statusMatches at hstatus
  rw [hf, if_neg (by decide), if_neg (by decide), if_pos rfl] at hstatus
  exact beq_iff_eq.mp hstatus

/-- Any other filter selects a row whatever the time is, and whether it is revoked or not unless it
asks for that. -/
theorem selects_of_kept {f : CertFilter} {c m : Certificate} (hf : ¬ AsksForUnrevoked f)
    (hm : m = { c with
      status := m.status
      revokedAt := m.revokedAt
      revokeCode := m.revokeCode })
    (hstatus : f.status = "revoked" → m.status = c.status) :
    f.selects t' m = f.selects t c := by
  unfold AsksForUnrevoked at hf
  rw [not_or, not_or] at hf
  obtain ⟨hactive, hexpired, hwithin⟩ := hf
  have hcond : f.statusMatches t' m = f.statusMatches t c := by
    unfold CertFilter.statusMatches
    rw [if_neg hactive, if_neg hactive, if_neg hexpired, if_neg hexpired]
    by_cases hrevoked : f.status = "revoked"
    · rw [if_pos hrevoked, if_pos hrevoked, hstatus hrevoked]
    · rw [if_neg hrevoked, if_neg hrevoked]
  unfold CertFilter.selects
  rw [hcond, decide_eq_true (not_lt.mp hwithin), Bool.true_or, Bool.true_or, Bool.and_true,
    Bool.and_true]
  rw [hm]
  rfl

/-- Revoking rows does not move them in the order of a search. -/
theorem matches_map {f : CertFilter} {rows : List Certificate}
    (hkept : ∀ c, mark c = { c with
      status := (mark c).status
      revokedAt := (mark c).revokedAt
      revokeCode := (mark c).revokeCode })
    (hsel : ∀ c ∈ rows, f.selects t' (mark c) = f.selects t c) :
    f.matches t' (rows.map mark) = (f.matches t rows).map mark := by
  unfold CertFilter.matches
  rw [List.filter_map, List.map_insertionSort (s := f.ordered) (r := f.ordered)]
  · refine congrArg (fun l => (List.map mark l).insertionSort f.ordered) ?_
    exact List.filter_congr hsel
  · intro a _ b _
    rw [ordered_iff, ordered_iff, hkept a, hkept b]
    rfl

omit [Go.Runtime] in
/-- The database and the clock answer all that a bulk revocation asks. -/
theorem bulkRevoke_answerable (s : Service) (i : BulkRevokeInput) :
    (s.bulkRevoke i).Uses Answerable := by
  have hnamed (ids : List Nat) : (targetsByID ids).Uses Answerable := by
    induction ids with
    | nil => exact uses_pure _
    | cons id ids ih =>
      unfold targetsByID
      refine (((ca_uses trivial).mapResult _).mapError _).bind fun c => ?_
      exact ih.bind fun more => uses_pure _
  have hfound (named : List Certificate) : (targetsByFilter named i.filter).Uses Answerable := by
    unfold targetsByFilter
    split
    · exact uses_pure _
    · refine Uses.bind ?_ fun r => uses_pure _
      refine (host_uses trivial).bind fun t => ?_
      refine (ca_uses trivial).bind fun total => ?_
      exact (ca_uses trivial).bind fun page => uses_pure _
  have haudit (actor action target detail : String) :
      (s.audit actor action target detail : Handler Go.Error Unit).Uses Answerable := by
    have hrow : (insertAudit (if actor = "" then "system" else actor) action target detail
        "").Uses Answerable := .ask trivial fun _ => .pure _
    refine hrow.attempt.bind fun r => ?_
    exact uses_ite (fun _ => host_uses trivial) fun _ => uses_pure ()
  refine (hnamed i.ids).bind fun named => ?_
  refine (hfound named).bind fun targets => ?_
  refine (uses_failIf _ _).bind fun _ => ?_
  refine (revokeEach_uses (fun _ => trivial) targets {}).bind fun out => ?_
  exact (haudit _ _ _ _).bind fun _ => uses_pure out

/-- A bulk revocation of certificates that are revoked already reports no error and changes
nothing. -/
theorem bulkRevoke_skips (hclock : Clocked P t i w)
    (hnamed : ∀ id ∈ i.ids, ∃ c, w.ca.certificates.get? id = some c ∧ c.status = .revoked)
    (hfound : ∀ c ∈ i.found t w.ca.certificates.rows, c.status = .revoked)
    (hsome : i.ids ≠ [] ∨ i.found t w.ca.certificates.rows ≠ [])
    {r : Except Go.Error BulkRevokeResult}
    (h : (s.bulkRevoke i).Returns (Sem.under exec (steady P)) w r w') :
    w' = w ∧ ∃ out, r = .ok out ∧ out.errors = [] := by
  unfold Service.bulkRevoke at h
  rcases returns_bind_any.mp h with ⟨named, v, hread, h₁⟩ | ⟨err, rfl, herr⟩
  swap
  · obtain ⟨-, ⟨_, heq, -⟩ | ⟨-, id, hid, hnone⟩⟩ := targetsByID_steady herr
    · cases heq
    · obtain ⟨c, hc, -⟩ := hnamed id hid
      rw [hc] at hnone
      cases hnone
  obtain ⟨rfl, ⟨_, heq, hmap⟩ | ⟨⟨_, heq⟩, -⟩⟩ := targetsByID_steady hread
  swap
  · cases heq
  cases heq
  rcases returns_bind_any.mp h₁ with ⟨targets, u, htargets, h₂⟩ | ⟨err, rfl, herr⟩
  swap
  · obtain ⟨-, heq⟩ := targetsByFilter_steady hclock.settled herr
    cases heq
  obtain ⟨rfl, heq⟩ := targetsByFilter_steady hclock.settled htargets
  cases heq
  have hne : named ++ added named (i.found t u.ca.certificates.rows) ≠ [] := by
    intro hnil
    obtain ⟨rfl, hadded⟩ := List.append_eq_nil_iff.mp hnil
    rcases hsome with hids | hfound
    · exact hids (List.map_eq_nil_iff.mp hmap.symm)
    · refine hfound ?_
      rw [← hadded]
      exact (List.filter_eq_self.mpr fun c _ => rfl).symm
  have hskip : ∀ c ∈ named ++ added named (i.found t u.ca.certificates.rows),
      c.status = .revoked := by
    intro c hc
    rcases List.mem_append.mp hc with hc | hc
    · obtain ⟨hids, hrows⟩ := map_id_of_read hmap
      have hid : c.id ∈ i.ids := hids ▸ List.mem_map_of_mem hc
      obtain ⟨c', hc', hstatus⟩ := hnamed c.id hid
      obtain rfl : c' = c :=
        Option.some.inj (hc'.symm.trans (Sql.Table.get?_of_mem (hrows c hc)))
      exact hstatus
    · exact hfound c (List.mem_filter.mp hc).1
  rcases returns_bind_any.mp h₂ with ⟨_, u', hcheck, h₃⟩ | ⟨err, rfl, herr⟩
  swap
  · exact absurd herr (not_returns_failIf_error hne)
  obtain ⟨-, rfl⟩ := returns_failIf.mp hcheck
  rcases returns_bind_any.mp h₃ with ⟨out', v', hloop, h₄⟩ | ⟨err, rfl, herr⟩
  swap
  · obtain ⟨-, _, heq, -⟩ := revokeEach_skips hskip herr
    cases heq
  obtain ⟨rfl, _, heq, herrors⟩ := revokeEach_skips hskip hloop
  cases heq
  rcases returns_bind_any.mp h₄ with ⟨_, w₁, haudit, h₅⟩ | ⟨err, rfl, herr⟩
  swap
  · obtain ⟨-, heq⟩ := audit_under herr
    cases heq
  obtain ⟨rfl, -⟩ := audit_under haudit
  obtain ⟨rfl, rfl⟩ := returns_pure_any.mp h₅
  exact ⟨rfl, out', rfl, herrors⟩

/-- A row of the search of a repeated call that is unrevoked makes it change something; where no
row is, and something is targeted, it changes nothing. -/
theorem repeatable_iff_skips (hrun : RevokeRun i t w w' out mark) (hclock : Clocked P t' i w') :
    Repeatable s i P w' ↔ (∀ c ∈ i.found t' w'.ca.certificates.rows, c.status = .revoked) ∧
      (i.ids ≠ [] ∨ i.found t' w'.ca.certificates.rows ≠ []) := by
  constructor
  · intro hrepeat
    obtain ⟨r, w'', h⟩ := returns_of_answerable (bulkRevoke_answerable s i) hclock.positive
      hclock.shown w'
    obtain ⟨rfl, out', rfl, -⟩ := hrepeat r w'' h
    obtain ⟨mark', hrun'⟩ := bulkRevoke_returns hclock h
    refine ⟨?_, ?_⟩
    · intro c hc
      -- Nothing changed, so what this call revoked was revoked before it.
      have hrow := mem_of_mem_found hc
      have hsame : mark' c = c := by
        refine Sql.Table.eq_of_key_eq ?_ hrow (hrun'.id_eq c)
        exact hrun'.mem_rows.mpr ⟨c, hrow, rfl⟩
      rw [← hsame]
      refine hrun'.listed c hrow (List.mem_append.mpr (.inr ?_))
      exact List.mem_map.mpr ⟨c, hc, rfl⟩
    · by_contra hnone
      rw [not_or, not_not, not_not] at hnone
      refine hrun'.nonempty ?_
      unfold BulkRevokeInput.targets
      rw [hnone.1, hnone.2]
      rfl
  · rintro ⟨hrevoked, hsome⟩ r w'' h
    refine bulkRevoke_skips hclock ?_ hrevoked hsome h
    -- The numbers that the first call found are still there, and revoked.
    intro id hid
    obtain ⟨c, hc⟩ := hrun.named id hid
    have hkey : c.id = id := Sql.Table.key_of_get? hc
    have hrow := Sql.Table.mem_of_get? hc
    refine ⟨mark c, Sql.Table.get?_eq_some_iff.mpr ⟨hrun.mem_rows.mpr ⟨c, hrow, rfl⟩, ?_⟩, ?_⟩
    · exact (hrun.id_eq c).trans hkey
    · exact hrun.listed c hrow (List.mem_append.mpr (.inl (hkey ▸ hid)))

/-- What the search of a repeated call finds, where it asks for unrevoked certificates. -/
theorem taken_eq_nil_iff (hrun : RevokeRun i t w w' out mark) {f : CertFilter}
    (hf : AsksForUnrevoked f) : taken f t' w'.ca.certificates.rows = [] ↔
      (remaining i f t t' w).length ≤ f.offset.toNat := by
  have hlength : (f.matches t' w'.ca.certificates.rows).length =
      (remaining i f t t' w).length := by
    unfold CertFilter.matches remaining
    rw [List.length_insertionSort, hrun.rows, List.filter_map, List.length_map]
    refine congrArg List.length (List.filter_congr fun c hc => ?_)
    rw [Function.comp_apply]
    by_cases htarget : c.id ∈ i.targets t w.ca.certificates.rows
    · have hmark : f.selects t' (mark c) = false := by
        rw [Bool.eq_false_iff]
        intro hsel
        exact unrevoked_of_selects hf hsel (hrun.listed c hc htarget)
      rw [hmark, decide_eq_false (not_not.mpr htarget), Bool.and_false]
    · rw [hrun.others c htarget, decide_eq_true htarget, Bool.and_true]
  unfold taken
  rw [List.take_eq_nil_iff, List.drop_eq_nil_iff, hlength, or_iff_right]
  split_ifs <;> omega

/-- And where it does not. -/
theorem taken_map (hrun : RevokeRun i t w w' out mark) {f : CertFilter}
    (hf : ¬ AsksForUnrevoked f)
    (hstatus : f.status = "revoked" → ∀ c ∈ w.ca.certificates.rows, mark c = c) :
    taken f t' w'.ca.certificates.rows = (taken f t w.ca.certificates.rows).map mark := by
  unfold taken
  rw [hrun.rows, matches_map hrun.kept fun c hc => ?_, List.map_take, List.map_drop]
  exact selects_of_kept hf (hrun.kept c) fun h => congrArg Certificate.status (hstatus h c hc)

/-- What the search of a repeated call finds. -/
theorem skips_iff_spent (hrun : RevokeRun i t w w' out mark) :
    (∀ c ∈ i.found t' w'.ca.certificates.rows, c.status = .revoked) ∧
      (i.ids ≠ [] ∨ i.found t' w'.ca.certificates.rows ≠ []) ↔ Spent i t t' w := by
  have hnonempty := hrun.nonempty
  have htargets : i.targets t w.ca.certificates.rows =
      i.ids ++ (i.found t w.ca.certificates.rows).map (·.id) := rfl
  unfold Spent
  cases hf : i.filter with
  | none =>
    have hfound (t : Time) (rows : List Certificate) : i.found t rows = [] := by
      unfold BulkRevokeInput.found
      rw [hf]
    rw [htargets, hfound, List.map_nil, List.append_nil] at hnonempty
    rw [hfound]
    exact iff_of_true ⟨fun c hc => absurd hc List.not_mem_nil, .inl hnonempty⟩
      fun f hf => by cases hf
  | some f =>
    have hfound (t : Time) (rows : List Certificate) : i.found t rows = taken f t rows := by
      unfold BulkRevokeInput.found
      rw [hf]
    rw [hfound]
    by_cases hasks : AsksForUnrevoked f
    · have hempty : taken f t' w'.ca.certificates.rows = [] ↔ _ := taken_eq_nil_iff hrun hasks
      constructor
      · rintro ⟨hall, hsome⟩ _ ⟨⟩ -
        have hnil : taken f t' w'.ca.certificates.rows = [] := by
          refine List.eq_nil_iff_forall_not_mem.mpr fun c hc => ?_
          exact unrevoked_of_selects hasks (mem_of_mem_taken hc).2 (hall c hc)
        exact ⟨hsome.resolve_right (not_not.mpr hnil), hempty.mp hnil⟩
      · intro hspent
        obtain ⟨hids, hlength⟩ := hspent f rfl hasks
        rw [hempty.mpr hlength]
        exact ⟨fun c hc => absurd hc List.not_mem_nil, .inl hids⟩
    · refine iff_of_true ⟨?_, ?_⟩ ?_
      · intro c hc
        by_cases hstatus : f.status = "revoked"
        · exact revoked_of_selects hstatus (mem_of_mem_taken hc).2
        · rw [taken_map hrun hasks fun h => absurd h hstatus] at hc
          obtain ⟨c', hc', rfl⟩ := List.mem_map.mp hc
          refine hrun.listed c' (mem_of_mem_taken hc').1 (List.mem_append.mpr (.inr ?_))
          rw [hfound]
          exact List.mem_map_of_mem hc'
      · by_cases hids : i.ids = []
        · refine .inr ?_
          rw [taken_map hrun hasks fun hstatus c hc => ?_]
          · intro hnil
            rw [htargets, hids, hfound, List.map_eq_nil_iff.mp hnil] at hnonempty
            exact hnonempty rfl
          · -- The targets were found, so they were revoked already.
            by_cases htarget : c.id ∈ i.targets t w.ca.certificates.rows
            · rw [htargets, hids, hfound, List.nil_append] at htarget
              obtain ⟨c', hc', hid⟩ := List.mem_map.mp htarget
              obtain rfl := Sql.Table.eq_of_key_eq (mem_of_mem_taken hc').1 hc hid
              exact hrun.revoked c' (revoked_of_selects hstatus (mem_of_mem_taken hc').2)
            · exact hrun.others c htarget
        · exact .inl hids
      · rintro _ ⟨⟩ h
        exact absurd h hasks

/-- **Bulk revocation covers its filter** exactly under three conditions. A call that is asked in a
run of its own returns. Where it goes through, it leaves no match unrevoked exactly when each is
named or among the thousand rows of its search; its counts add up to the distinct targets exactly
when no certificate is named twice; and the same call once more changes nothing and reports no error
exactly when a filter for unrevoked certificates comes with named ones and is spent. -/
theorem bulkRevoke_covers (s : Service) (i : BulkRevokeInput) (P P' : Time → Bool) (t t' : Time)
    (w : World) (hclock : Clocked P t i w) :
    (∃ r w', (s.bulkRevoke i).Returns (Sem.under exec (steady P)) w r w') ∧
    ∀ out w', (s.bulkRevoke i).Returns (Sem.under exec (steady P)) w (.ok out) w' →
      Clocked P' t' i w' →
        ((Covered i t w' ∧ Tallied i t w out ∧ Repeatable s i P' w') ↔
          InReach i t w ∧ i.ids.Nodup ∧ Spent i t t' w) := by
  refine ⟨?_, ?_⟩
  · exact returns_of_answerable (bulkRevoke_answerable s i) hclock.positive hclock.shown w
  · intro out w' h hclock'
    obtain ⟨mark, hrun⟩ := bulkRevoke_returns hclock h
    rw [covered_iff hrun, tallied_iff hrun, repeatable_iff_skips hrun hclock',
      skips_iff_spent hrun]

end Law

section Samples

attribute [local instance] Go.asciiRuntime

open Samples

/-- A time of a clock that stands still. -/
theorem clocked_of_still {t : Time} (ht : 0 < t) (i : BulkRevokeInput) (w : World) :
    Clocked (· == t) t i w where
  positive := ht
  shown := beq_self_eq_true t
  settled f _ u hu c _ := by rw [beq_iff_eq.mp hu]

/-- Two certificates of one authority. -/
def pair : World := installation root [leaf, { leaf with serialHex := "03" }]

/-- What a call reports at one time: how many certificates are revoked, skipped and failed. -/
def reports (i : BulkRevokeInput) : Option (Nat × Nat × Nat) :=
  ((replica.caSvc.bulkRevoke i).run.evalWith (Sem.under exec (steady (· == 100))) { now := 100 }
    pair).bind fun x => x.1.toOption.map fun out =>
      (out.revoked.length, out.skipped.length, out.errors.length)

theorem returns_of_reports {i : BulkRevokeInput} {n : Nat × Nat × Nat} (h : reports i = some n) :
    ∃ out w', (replica.caSvc.bulkRevoke i).Returns (Sem.under exec (steady (· == 100))) pair
      (.ok out) w' ∧ (out.revoked.length, out.skipped.length, out.errors.length) = n := by
  obtain ⟨⟨r, w'⟩, hx, hr⟩ := Option.bind_eq_some_iff.mp h
  cases r with
  | error e => cases hr
  | ok out => exact ⟨out, w', Interleave.Prog.returns_of_evalWith hx, Option.some.inj hr⟩

/-- Everything that names the host. -/
def doomed : BulkRevokeInput := { filter := some { query := "host" }, reason := 5 }

/-- Both certificates name the host, and both are revoked. -/
theorem doomed_covered : ∃ out w',
    (replica.caSvc.bulkRevoke doomed).Returns (Sem.under exec (steady (· == 100))) pair (.ok out)
      w' ∧ out.revoked.length = 2 ∧ Covered doomed 100 w' ∧ Tallied doomed 100 pair out ∧
        Repeatable replica.caSvc doomed (· == 200) w' := by
  have hreports : reports doomed = some (2, 0, 0) := by decide +kernel
  obtain ⟨out, w', h, hcounts⟩ := returns_of_reports hreports
  refine ⟨out, w', h, congrArg Prod.fst hcounts, ?_⟩
  have hclock := clocked_of_still (show 0 < (100 : Int) by decide) doomed pair
  have hagain := clocked_of_still (show 0 < (200 : Int) by decide) doomed w'
  refine ((bulkRevoke_covers replica.caSvc doomed (· == 100) (· == 200) 100 200 pair hclock).2
    out w' h hagain).mpr ⟨?_, List.nodup_nil, ?_⟩
  · intro f _ _ c hc _
    have hall : ∀ c ∈ pair.ca.certificates.rows, c.id ∈ doomed.targets 100
        pair.ca.certificates.rows := by decide +kernel
    exact .inr (hall c hc)
  · rintro f ⟨⟩ hasks
    have hnot : ¬ AsksForUnrevoked { query := "host" } := by
      unfold AsksForUnrevoked
      decide
    exact absurd hasks hnot

/-- One certificate, named twice. -/
def doubled : BulkRevokeInput := { ids := [1, 1], reason := 5 }

/-- The certificate is counted twice: as revoked, and as one that could not be revoked. -/
theorem doubled_miscounted : ∃ out w',
    (replica.caSvc.bulkRevoke doubled).Returns (Sem.under exec (steady (· == 100))) pair (.ok out)
      w' ∧ out.revoked.length = 1 ∧ out.errors.length = 1 ∧
        ¬ (Covered doubled 100 w' ∧ Tallied doubled 100 pair out ∧
          Repeatable replica.caSvc doubled (· == 200) w') := by
  have hreports : reports doubled = some (1, 0, 1) := by decide +kernel
  obtain ⟨out, w', h, hcounts⟩ := returns_of_reports hreports
  obtain ⟨hrevoked, hrest⟩ := Prod.mk.inj hcounts
  obtain ⟨hskipped, herrors⟩ := Prod.mk.inj hrest
  refine ⟨out, w', h, hrevoked, herrors, ?_⟩
  rintro ⟨-, htallied, -⟩
  unfold Tallied at htallied
  rw [hrevoked, hskipped, herrors] at htallied
  exact absurd htallied (by decide +kernel)

end Samples

end Goca.Ca
