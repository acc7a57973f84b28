import Goca.Laws.Lineage
import Goca.Laws.RenewalIdentity

/-!
# Automatic renewal

`RenewExpiring` searches for the active certificates that expire within a window, takes the first
thousand of them and renews each one. A renewal leaves the old certificate active, and the search
does not ask whether a certificate has been renewed: a run that follows within the window takes the
same rows again, and where more than a thousand are due it never comes to those behind.

A run is taken apart once: `batch_replaces` says that it adds one replacement for each certificate
on its page and no other. What holds over a sequence of runs is then counted.
-/

set_option autoImplicit false

namespace Goca

open Go (Time)
open Goca.Store
open Interleave (Act Prog Sem)
open Interleave.Act
open Sql (Table)

/-! ## Due certificates -/

/-- The search of `RenewExpiring`. -/
def dueFilter (days : Int) : CertFilter where
  expiringIn := if days ≤ 0 then 30 else days
  limit := 1000
  sortBy := "not_after"

/-- A certificate is due: it is active and expires within the window. -/
def IsDue (days : Int) (t : Time) (c : Certificate) : Prop :=
  c.status = .active ∧ t < c.notAfter ∧ c.notAfter ≤ t.addDays (if days ≤ 0 then 30 else days)

/-- How many replacements of a certificate are stored. -/
def replacements (t : CaTables) (id : Nat) : Nat :=
  t.certificates.count (·.renewedFrom == some id)

/-- **A live replacement**: one that is not revoked and not expired. -/
def LiveReplaced (t : Time) (w : World) (c : Certificate) : Prop :=
  ∃ r ∈ w.ca.certificates.rows, r.renewedFrom = some c.id ∧ r.status = .active ∧ t < r.notAfter

section Due

variable [Go.Runtime] {days : Int} {t : Time} {w : World} {c : Certificate}

/-- The search selects what is due. -/
theorem selects_due : (dueFilter days).selects t c = true ↔ IsDue days t c := by
  have hquery : (dueFilter days).queryMatches c = true :=
    queryMatches_empty (show Go.trimSpace "" = "" by decide)
  have hwindow : ¬ (dueFilter days).expiringIn ≤ 0 := by
    unfold dueFilter
    dsimp only
    split_ifs <;> omega
  unfold CertFilter.selects
  rw [hquery, decide_eq_false hwindow]
  simp [CertFilter.statusMatches, dueFilter, IsDue, and_assoc]
  exact fun _ _ => decide_eq_true_iff

/-- **The page of a run**: the first thousand that are due, by number. -/
def page (days : Int) (t : Time) (w : World) : List Nat :=
  ((dueFilter days).page t w.ca.certificates.rows).map (·.id)

theorem mem_page_due {id : Nat} (h : id ∈ page days t w) :
    ∃ c ∈ w.ca.certificates.rows, c.id = id ∧ IsDue days t c := by
  obtain ⟨c, hc, rfl⟩ := List.mem_map.mp h
  obtain ⟨hrow, hsel⟩ := mem_of_mem_matches (List.mem_of_mem_drop (List.mem_of_mem_take hc))
  exact ⟨c, hrow, rfl, selects_due.mp hsel⟩

/-- A row is on a page once. -/
theorem nodup_page (days : Int) (t : Time) (w : World) : (page days t w).Nodup := by
  refine (nodup_matches (dueFilter days) t w.ca.certificates).sublist ?_
  exact ((List.take_sublist _ _).trans (List.drop_sublist _ _)).map _

end Due

/-! ## One run -/

section Run

variable [Go.Runtime] {days : Int} {t : Time} {w w' : World}

/-- **One run**: its search has read the clock, it renews without an error, and it leaves the old
certificates as they are. -/
structure Batch (days : Int) (t : Time) (w w' : World) : Prop where
  run : ∃ (s : Ca.Service) (i : Ca.RenewInput)
    (rest : Time → Handler Go.Error (List Ca.RenewResult × List Go.Error))
    (out : List Ca.RenewResult), i.revokeOld = false ∧ s.renewExpiring days i = now >>= rest ∧
      (rest t).Returns exec w (.ok (out, [])) w'

/-- The search of `RenewExpiring`, once it has read the clock. -/
def searchAt (f : CertFilter) (t : Time) : Handler Go.Error (List Certificate × Nat) := do
  let total ← ca (.countCertificates f t)
  let page ← ca (.searchCertificates f t)
  pure (page, total)

/-- What `RenewExpiring` does once its search has read the clock. -/
def renewDue (s : Ca.Service) (days : Int) (i : Ca.RenewInput) (t : Time) :
    Handler Go.Error (List Ca.RenewResult × List Go.Error) := do
  let due ← (searchAt (dueFilter days) t).attempt
  match due with
  | .error e => pure ([], [e])
  | .ok (due, _) => s.renewEach i due

theorem renewExpiring_eq (s : Ca.Service) (days : Int) (i : Ca.RenewInput) :
    s.renewExpiring days i = now >>= renewDue s days i := rfl

omit [Go.Runtime] in
/-- A program reads the clock and goes on in one way. -/
theorem now_bind_inj {α : Type} {f g : Time → Handler Go.Error α} (h : now >>= f = now >>= g) :
    f = g := by
  have hrun : (fun t => (f t).run) = fun t => (g t).run := by
    have hask := congrArg ExceptT.run h
    injection hask
  exact funext fun t => congrFun hrun t

/-- A call that reports no error is a run. -/
theorem exists_batch {s : Ca.Service} {i : Ca.RenewInput} {out : List Ca.RenewResult}
    (hi : i.revokeOld = false)
    (h : (s.renewExpiring days i : Handler Go.Error _).Returns exec w (.ok (out, [])) w') :
    ∃ t, 0 < t ∧ Batch days t w w' := by
  rw [renewExpiring_eq] at h
  obtain ⟨t, v, ht, hrest⟩ := returns_now_bind.mp h
  obtain ⟨hpos, rfl⟩ := Pki.now_returns.mp ht
  exact ⟨t, hpos, ⟨s, i, _, out, hi, renewExpiring_eq s days i, hrest⟩⟩

-- From here on a call is taken apart by the rules, never by running it.
attribute [local irreducible] Interleave.Prog.Returns

/-- **A renewal adds one row**, the replacement. -/
theorem renew_appends {s : Ca.Service} {id : Nat} {i : Ca.RenewInput} {r : Ca.RenewResult}
    (hi : i.revokeOld = false) (h : (s.renew id i).Returns exec w (.ok r) w') :
    w'.ca.certificates.rows = w.ca.certificates.rows ++ [r.certificate] ∧
      r.certificate.renewedFrom = some id := by
  have h : (s.renew id i).Returns (Sem.under exec fun _ => true) w (.ok r) w' := by
    rwa [Sem.under_true]
  obtain ⟨old, caRef, c, request, res, v, hold, _, _, _, hissue, hnew, u, u', revoked, hlink,
    hrevoke, htables⟩ := renew_returns h
  obtain ⟨row, m, p, c', createdAt, _, hcert, hca⟩ := issue_returns hissue
  have hkey : old.id = id := Table.key_of_get? hold
  have hkept : u' = u := by
    rw [hi] at hrevoke
    exact (returns_pure.mp hrevoke).2.symm
  have hlink := setRenewedFrom_returns hlink
  refine ⟨?_, by rw [hnew, ← hkey]⟩
  rw [htables, hkept, hlink, hca, hnew, hcert]
  generalize inserted (request.record row p.profile m c') createdAt = n
  -- The rows that were there have smaller numbers than the one that the link is written to.
  have hmap : w.ca.certificates.rows.map (fun c => if c.id == w.ca.certificates.seq + 1 then
      { c with renewedFrom := some old.id } else c) = w.ca.certificates.rows := by
    refine (List.map_congr_left fun c hc => ?_).trans (List.map_id _)
    have hle : c.id ≤ w.ca.certificates.seq := w.ca.certificates.bounded c hc
    rw [if_neg (by rw [beq_iff_eq]; omega)]
    rfl
  refine (List.map_append).trans ?_
  refine congrArg₂ (· ++ ·) hmap ?_
  refine congrArg (· :: []) (if_pos ?_)
  exact beq_self_eq_true _

/-- **The loop adds one replacement for each certificate** where none fails. -/
theorem renewEach_adds {s : Ca.Service} {i : Ca.RenewInput} {certs : List Certificate}
    {out : List Ca.RenewResult} (hi : i.revokeOld = false)
    (h : (s.renewEach i certs : Handler Go.Error _).Returns exec w (.ok (out, [])) w') (id : Nat) :
    replacements w'.ca id = replacements w.ca id + (certs.map (·.id)).count id := by
  induction certs generalizing w out with
  | nil =>
    obtain ⟨-, rfl⟩ := returns_pure.mp h
    rfl
  | cons c rest ih =>
    obtain ⟨res, v, hres, h₁⟩ := returns_bind.mp h
    obtain ⟨⟨out', errs⟩, u, hrest, h₂⟩ := returns_bind.mp h₁
    obtain ⟨hpair, rfl⟩ := returns_pure.mp h₂
    cases res with
    | error e =>
      obtain ⟨-, hnil⟩ := Prod.mk.inj hpair
      cases hnil
    | ok r =>
      obtain ⟨-, rfl⟩ := Prod.mk.inj hpair
      obtain ⟨hrows, hfrom⟩ := renew_appends hi (returns_attempt.mp hres)
      have hone : replacements v.ca id = replacements w.ca id + if c.id = id then 1 else 0 := by
        unfold replacements Table.count
        rw [hrows, List.countP_append, List.countP_singleton, hfrom]
        simp only [beq_iff_eq, Option.some.injEq]
      rw [ih hrest, hone, List.map_cons, List.count_cons, Nat.add_assoc]
      simp only [beq_iff_eq, Nat.add_comm]

/-- **What a run does**: each certificate on its page has one replacement more. -/
theorem batch_replaces (h : Batch days t w w') (id : Nat) :
    replacements w'.ca id = replacements w.ca id + if id ∈ page days t w then 1 else 0 := by
  obtain ⟨s, i, rest, out, hi, heq, hrun⟩ := h.run
  rw [renewExpiring_eq] at heq
  rw [← now_bind_inj heq] at hrun
  unfold renewDue at hrun
  obtain ⟨due, v, hdue, h₁⟩ := returns_bind.mp hrun
  cases due with
  | error e =>
    obtain ⟨hpair, -⟩ := returns_pure.mp h₁
    cases hpair
  | ok found =>
    have hsearch := returns_attempt.mp hdue
    unfold searchAt at hsearch
    obtain ⟨total, v₁, htotal, h₂⟩ := returns_bind.mp hsearch
    obtain ⟨rows, v₂, hrows, h₃⟩ := returns_bind.mp h₂
    obtain ⟨rfl, rfl⟩ := returns_pure.mp h₃
    obtain ⟨_, _, _, rfl⟩ := ca_returns htotal
    obtain ⟨_, _, hpage, rfl⟩ := ca_returns hrows
    obtain rfl := Except.ok.inj hpage
    rw [renewEach_adds hi h₁]
    exact congrArg (replacements w.ca id + ·) (nodup_page days t w).count

end Run

/-! ## Runs one after the other -/

/-- One run of a sequence: the time of its search, and the database before and after it. -/
structure DueRun where
  time : Time
  before : World
  after : World

section Runs

variable [Go.Runtime] {days : Int} {w w' : World} {runs : List DueRun}

/-- The page of a run. -/
def DueRun.page (days : Int) (x : DueRun) : List Nat := Goca.page days x.time x.before

/-- **Runs one after the other**, with the same window. -/
inductive Batches (days : Int) : World → List DueRun → World → Prop
  | nil (w : World) : Batches days w [] w
  | cons {x : DueRun} {runs : List DueRun} {w : World} (h : Batch days x.time x.before x.after)
      (hrest : Batches days x.after runs w) : Batches days x.before (x :: runs) w

/-- A run adds one replacement for each certificate on its page. -/
theorem DueRun.replaces {x : DueRun} (h : Batch days x.time x.before x.after) (id : Nat) :
    replacements x.after.ca id =
      replacements x.before.ca id + if id ∈ x.page days then 1 else 0 := batch_replaces h id

theorem Batches.run (h : Batches days w runs w') :
    ∀ x ∈ runs, Batch days x.time x.before x.after := by
  induction h with
  | nil => exact fun x hx => absurd hx List.not_mem_nil
  | cons h _ ih => exact List.forall_mem_cons.mpr ⟨h, ih⟩

/-- **What a sequence of runs does**: a certificate has one replacement more for each page that it
was on. -/
theorem batches_replace (h : Batches days w runs w') (id : Nat) :
    replacements w'.ca id =
      replacements w.ca id + runs.countP fun x => decide (id ∈ x.page days) := by
  induction h with
  | nil => rfl
  | @cons x runs w h _ ih =>
    rw [ih, DueRun.replaces h, List.countP_cons, Nat.add_assoc,
      Nat.add_comm _ (List.countP _ runs)]
    simp only [decide_eq_true_eq]

/-- **Once**: over the whole sequence a certificate that is due without a live replacement gets one
replacement, and no run renews a certificate that has a live one. -/
structure RenewedOnce (days : Int) (w : World) (runs : List DueRun) (w' : World) : Prop where
  once : ∀ x ∈ runs, ∀ c ∈ x.before.ca.certificates.rows, IsDue days x.time c →
    ¬ LiveReplaced x.time x.before c →
    replacements w'.ca c.id = replacements w.ca c.id + 1
  idempotent : ∀ x ∈ runs, ∀ c ∈ x.before.ca.certificates.rows, LiveReplaced x.time x.before c →
    replacements x.after.ca c.id = replacements x.before.ca c.id

/-- **On one page**: the pages hold no certificate that has a live replacement and none that was on
a page before, and each certificate that is due without one is on the page of some run. -/
structure TakenOnce (days : Int) (runs : List DueRun) : Prop where
  fresh : ∀ x ∈ runs, ∀ c ∈ x.before.ca.certificates.rows, c.id ∈ x.page days →
    ¬ LiveReplaced x.time x.before c
  apart : runs.Pairwise fun x y => ∀ id ∈ x.page days, id ∉ y.page days
  reached : ∀ x ∈ runs, ∀ c ∈ x.before.ca.certificates.rows, IsDue days x.time c →
    ¬ LiveReplaced x.time x.before c → ∃ y ∈ runs, c.id ∈ y.page days

omit [Go.Runtime] in
/-- At most one element counts where no two do. -/
theorem countP_le_one_iff {α : Type} {p : α → Bool} {l : List α} :
    l.countP p ≤ 1 ↔ ∀ {a b}, [a, b].Sublist l → p a = true → ¬ p b = true := by
  rw [← List.pairwise_iff_forall_sublist (R := fun a b => p a = true → ¬ p b = true)]
  induction l with
  | nil => exact iff_of_true (Nat.zero_le 1) .nil
  | cons x l ih =>
    rw [List.countP_cons, List.pairwise_cons]
    by_cases hx : p x = true
    · rw [if_pos hx]
      constructor
      · intro hle
        have hzero : l.countP p = 0 := by omega
        refine ⟨fun a ha _ => List.countP_eq_zero.mp hzero a ha, ih.mp (by omega)⟩
      · rintro ⟨hnone, -⟩
        rw [List.countP_eq_zero.mpr fun a ha => hnone a ha hx]
    · rw [if_neg hx]
      exact ih.trans ⟨fun h => ⟨fun _ _ hx' => absurd hx' hx, h⟩, And.right⟩

/-- **Automatic renewal is complete and idempotent** exactly when the pages share nothing and leave
nothing out. -/
theorem renewExpiring_once (h : Batches days w runs w') :
    RenewedOnce days w runs w' ↔ TakenOnce days runs := by
  constructor
  · intro honce
    have hfresh : ∀ x ∈ runs, ∀ c ∈ x.before.ca.certificates.rows, c.id ∈ x.page days →
        ¬ LiveReplaced x.time x.before c := by
      intro x hx c hc hpage hlive
      have hadded := DueRun.replaces (h.run x hx) c.id
      rw [if_pos hpage, honce.idempotent x hx c hc hlive] at hadded
      omega
    have hcount (x : DueRun) (hx : x ∈ runs) (c : Certificate)
        (hc : c ∈ x.before.ca.certificates.rows) (hdue : IsDue days x.time c)
        (hlive : ¬ LiveReplaced x.time x.before c) :
        (runs.countP fun x => decide (c.id ∈ x.page days)) = 1 := by
      have htotal := batches_replace h c.id
      rw [honce.once x hx c hc hdue hlive] at htotal
      omega
    refine ⟨hfresh, ?_, ?_⟩
    · refine List.pairwise_iff_forall_sublist.mpr fun {x y} hsub id hx hy => ?_
      have hmem : x ∈ runs := hsub.subset List.mem_cons_self
      obtain ⟨c, hc, rfl, hdue⟩ := mem_page_due hx
      have hone := hcount x hmem c hc hdue (hfresh x hmem c hc hx)
      exact countP_le_one_iff.mp hone.le hsub (decide_eq_true hx) (decide_eq_true hy)
    · intro x hx c hc hdue hlive
      have hpos : 0 < runs.countP fun x => decide (c.id ∈ x.page days) := by
        rw [hcount x hx c hc hdue hlive]
        exact Nat.one_pos
      obtain ⟨y, hy, hpage⟩ := List.countP_pos_iff.mp hpos
      exact ⟨y, hy, of_decide_eq_true hpage⟩
  · rintro ⟨hfresh, hapart, hreached⟩
    refine ⟨fun x hx c hc hdue hlive => ?_, fun x hx c hc hlive => ?_⟩
    · obtain ⟨y, hy, hpage⟩ := hreached x hx c hc hdue hlive
      have hpos : 0 < runs.countP fun x => decide (c.id ∈ x.page days) :=
        List.countP_pos_iff.mpr ⟨y, hy, decide_eq_true hpage⟩
      have hle : (runs.countP fun x => decide (c.id ∈ x.page days)) ≤ 1 := by
        refine countP_le_one_iff.mpr fun {a b} hsub ha hb => ?_
        exact List.pairwise_iff_forall_sublist.mp hapart hsub c.id (of_decide_eq_true ha)
          (of_decide_eq_true hb)
      rw [batches_replace h c.id]
      omega
    · rw [DueRun.replaces (h.run x hx), if_neg fun hpage => hfresh x hx c hc hpage hlive,
        Nat.add_zero]

end Runs

/-! ### One certificate, due in two runs -/

section Samples

attribute [local instance] Go.asciiRuntime

instance (t : Time) (w : World) (c : Certificate) : Decidable (LiveReplaced t w c) := by
  unfold LiveReplaced; infer_instance

instance (days : Int) (t : Time) (c : Certificate) : Decidable (IsDue days t c) := by
  unfold IsDue; infer_instance

/-- A result without errors. -/
def reportsNone : Except Go.Error (List Ca.RenewResult × List Go.Error) → Bool
  | .ok (_, errs) => errs.isEmpty
  | .error _ => false

/-- The renewal of everything that is due, by certificates of ninety days. -/
def renewalOfDue (t : Time) : Handler Go.Error (List Ca.RenewResult × List Go.Error) :=
  renewDue Samples.replica.caSvc 30 { days := 90 } t

/-- A run under one environment that reports no error. -/
theorem batch_of_eval {e : Env} {w : World}
    (h : ((renewalOfDue e.now).run.evalWith exec e w).any fun x => reportsNone x.1) :
    Batch 30 e.now w (Samples.afterCall (renewalOfDue e.now) e w) := by
  obtain ⟨⟨r, w'⟩, hrun, hnone⟩ := (Option.any_eq_true _ _).mp h
  have hafter : Samples.afterCall (renewalOfDue e.now) e w = w' := by
    unfold Samples.afterCall
    rw [hrun]
  rw [hafter]
  cases r with
  | error err => cases hnone
  | ok r =>
    obtain ⟨out, errs⟩ := r
    obtain rfl : errs = [] := List.isEmpty_iff.mp hnone
    exact ⟨Samples.replica.caSvc, { days := 90 }, _, out, rfl, renewExpiring_eq _ _ _,
      Interleave.Prog.returns_of_evalWith hrun⟩

/-- A certificate of ten days. -/
def dueSoon : World :=
  Samples.afterCall (Samples.replica.caSvc.issue
      { subject := { commonName := "host" }, profile := "client", days := 10 })
    { now := 100, pick := 1 } (Samples.installation Samples.root [])

/-- The first run, an hour later. -/
def firstRun : DueRun where
  time := 3700
  before := dueSoon
  after := Samples.afterCall (renewalOfDue 3700) { now := 3700, pick := 2 } dueSoon

/-- The second run, on the next day. -/
def secondRun : DueRun where
  time := 90100
  before := firstRun.after
  after := Samples.afterCall (renewalOfDue 90100) { now := 90100, pick := 3 } firstRun.after

theorem batch_firstRun : Batch 30 firstRun.time firstRun.before firstRun.after :=
  batch_of_eval (e := { now := 3700, pick := 2 }) (by decide +kernel)

/-- One run renews the certificate. -/
theorem firstRun_once : RenewedOnce 30 dueSoon [firstRun] firstRun.after := by
  refine (renewExpiring_once (.cons batch_firstRun (.nil _))).mpr
    ⟨?_, List.pairwise_singleton _ _, ?_⟩
  · decide +kernel
  · decide +kernel

/-- Two runs renew it twice, though its replacement is live. -/
theorem secondRun_again : ¬ ∀ (days : Int) (w : World) (runs : List DueRun) (w' : World),
    Batches days w runs w' → RenewedOnce days w runs w' := by
  intro hall
  have hsecond : Batch 30 secondRun.time secondRun.before secondRun.after :=
    batch_of_eval (e := { now := 90100, pick := 3 }) (by decide +kernel)
  have honce := hall 30 dueSoon [firstRun, secondRun] secondRun.after
    (.cons batch_firstRun (.cons hsecond (.nil _)))
  have hagain : ∃ c ∈ secondRun.before.ca.certificates.rows,
      LiveReplaced secondRun.time secondRun.before c ∧
      replacements secondRun.after.ca c.id ≠ replacements secondRun.before.ca c.id := by
    decide +kernel
  obtain ⟨c, hc, hlive, hne⟩ := hagain
  exact hne (honce.idempotent secondRun (by simp) c hc hlive)

end Samples

end Goca
