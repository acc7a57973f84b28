import Goca.Laws.Finalize
import Goca.Laws.Samples

/-!
# Who signs

Every operation that signs a certificate under an existing authority reads the authority's row and
its key first. `Issue`, and with it `Renew`, `RenewExpiring` and ACME `Finalize`, then runs
`checkCanIssue` on the row; `CreateCA` does not: it takes whatever parent has a certificate and a
key that decrypts, and only the end of the new certificate is compared with the parent's. That
comparison stands for one with the clock as long as the requested days do not wrap around.

- `serve_vetted`: every signature of every call rests on a row that was read and holds the
  certificate and the key that sign, and on a clock reading inside the certificate's validity,
  unless the call is a `CreateCA` whose days wrap around; the row is active, unless the call is
  `CreateCA`.
- `signers_usable_iff`: in a run, every authority that signs was usable when it was checked exactly
  when no `CreateCA` signs under a parent that it read as inactive, or, with days that wrap around,
  under an expired one.
-/

set_option autoImplicit false

namespace Goca

open Goca.Store
open Goca.Pki (PrivateKey PublicKey Template X509)
open Interleave (Act Prog Pool Trace Lawful own)
open Interleave.Act

/-! ## What every signature rests on -/

/-- The row of the authority whose certificate and key sign was read. -/
def SignerRead (q : Trace sig) (row : CA) (p : X509) (priv : PrivateKey) : Prop :=
  ReadCA q row ∧ row.certPEM = some p ∧ row.keyEnc = some priv

/-- The clock was read inside the validity of a certificate. -/
def LiveRead (q : Trace sig) (p : X509) : Prop :=
  ∃ t, Saw q (.host .now) t ∧ t.after p.notAfter = false

/-- The days of the certificate that `CreateCA` signs. -/
def authorityDays (s : Ca.Service) (i : Ca.CreateCAInput) : Int :=
  let days := if i.days ≤ 0 then s.cfg.defaultCADays else i.days
  if days ≤ 0 then 3650 else days

/-- The days that `CreateCA` was asked for take a time that it read to an earlier one. -/
def WrapsAround (c : Call) (q : Trace sig) : Prop :=
  ∃ i t, c.request = .createCA i ∧ Saw q (.host .now) t ∧
    t.addDays (authorityDays c.replica.caSvc i) < t

/-- A signature under a parent rests on the parent's row, on its status unless the call is
`CreateCA`, and on the clock unless the days of a `CreateCA` wrap around. -/
def Vetted (c : Call) (q : Trace sig) (s : Stmt) : Prop :=
  ∀ tmpl p pub priv, s = .host (.createCertificate tmpl (some p) pub priv) →
    ∃ row, SignerRead q row p priv ∧ ((∀ i, c.request ≠ .createCA i) → row.status = .active) ∧
      (LiveRead q p ∨ WrapsAround c q)

theorem vetted_of_within {c : Call} {ks : List Effect} (h : .signCertificate ∉ ks) {q : Trace sig}
    {s : Stmt} (hs : Within ks s) : Vetted c q s := by
  rintro tmpl p pub priv rfl
  exact absurd hs h

theorem allows_vetted {c : Call} {ks : List Effect} (h : .signCertificate ∉ ks) (q : Trace sig) :
    Allows ks (Vetted c) q := fun _ _ _ hs => vetted_of_within h hs

/-- An authority that passes `checkCanIssue` is active. -/
theorem active_of_canIssue {t : Go.Time} {c : CA} (h : Ca.canIssue t c = .ok ()) :
    c.status = .active := by
  unfold Ca.canIssue at h
  split at h
  · cases h
  split at h
  · cases h
  split at h
  · cases h
  · next hactive => exact not_not.mp hactive

section

variable [Go.Runtime]

/-- What `issue` checks is enough. -/
theorem vetted_of_issue {c : Call} {q : Trace sig} {svc : Ca.Service} {i : Ca.IssueInput} {row : CA}
    {p : Pki.SignParams} {s : Stmt} (hi : IssueWarrant svc i row p q) (hs : SignWarrant p q s) :
    Vetted c q s := by
  rintro tmpl parent pub priv rfl
  obtain ⟨serial, t, _, _, _, hst⟩ := hs.signature
  cases hst
  obtain ⟨t', _, hcan⟩ := hi.issuer.usable
  exact ⟨row, ⟨hi.issuer.resolved, hi.issuer.certificate, hi.issuer.privateKey⟩,
    fun _ => active_of_canIssue hcan, .inl hs.unexpired⟩

/-- A certificate that does not outrun its parent is signed while the parent is valid, as long as it
ends after the time it was signed. -/
theorem unexpired_of_outruns {p : Pki.CAParams} {pub : PublicKey} {serial : Nat} {t : Go.Time}
    {parent : X509} {key : PrivateKey} (hp : p.parent = some (parent, key))
    (h : Pki.outruns (p.template pub serial t) p.parent = .ok ())
    (hforward : ¬ t.addDays (if p.days ≤ 0 then 3650 else p.days) < t) :
    t.after parent.notAfter = false := by
  rw [hp] at h
  unfold Pki.outruns at h
  dsimp only at h
  split at h
  · cases h
  · next hno =>
    have hle : ¬ parent.notAfter < t.addDays (if p.days ≤ 0 then 3650 else p.days) :=
      fun h => hno (decide_eq_true h)
    exact decide_eq_false fun hlt => hle (lt_of_lt_of_le hlt (not_lt.mp hforward))

/-- What `CreateCA` checks is enough for everything but the status of the parent and days that wrap
around. -/
theorem vetted_of_parent {c : Call} {i : Ca.CreateCAInput} (hc : c.request = .createCA i)
    {q : Trace sig} {s : Stmt} (h : ParentWarrant
      (if i.days ≤ 0 then c.replica.caSvc.cfg.defaultCADays else i.days) q s) : Vetted c q s := by
  rintro tmpl cert pub priv rfl
  obtain ⟨p, parent, hauth, hdays, hparent, hread⟩ := h
  obtain ⟨pub', priv', serial, t, _, ht, houtruns, hpriv, hst⟩ := hauth.signature
  injection hst with hst
  injection hst with _ hcert _ hkey
  obtain ⟨⟨cert', key⟩, hp, rfl⟩ := Option.map_eq_some_iff.mp hcert.symm
  obtain ⟨⟨row, x⟩, rfl, hx⟩ := Option.map_eq_some_iff.mp (hparent.symm.trans hp)
  obtain rfl : x = (cert', key) := hx
  obtain ⟨hrow, hrowCert, hrowKey⟩ := hread row cert' key rfl
  obtain rfl : priv = key := hkey.trans (hpriv cert' key hp)
  refine ⟨row, ⟨hrow, hrowCert, hrowKey⟩, fun h => absurd hc (h i), ?_⟩
  by_cases hwrap : t.addDays (authorityDays c.replica.caSvc i) < t
  · exact .inr ⟨i, t, hc, ht, hwrap⟩
  · refine .inl ⟨t, ht, unexpired_of_outruns hp houtruns ?_⟩
    rw [hdays]
    exact hwrap

/-- **Every signature is vetted.** -/
theorem serve_vetted (c : Call) : c.serve.Traced (Vetted c) (fun _ _ => True) [] := by
  have hissue {svc : Ca.Service} (q : Trace sig) (i : Ca.IssueInput) (row : CA)
      (p : Pki.SignParams) (st : Stmt) (_ : [] <+: q) : IssueWarrant svc i row p q →
      SignWarrant p q st → Vetted c q st := vetted_of_issue
  have hother {k : Effect} {s : Stmt} (hk : Stmt.effect? s = some k) (hne : k ≠ .signCertificate)
      (q : Trace sig) : Vetted c q s :=
    vetted_of_within (fun h => hne (List.mem_singleton.mp h).symm) (within_self hk)
  by_cases h : Effect.signCertificate ∈ c.request.effects
  · obtain ⟨acme, request⟩ := c
    cases request with
    | createCA i =>
      refine replying_traced (serviceCreateCA_traced acme.caSvc i (allows_vetted (by decide) _)
        (fun q st _ => vetted_of_parent (c := ⟨acme, .createCA i⟩) rfl)
        fun q _ _ _ _ _ => hother rfl (by decide) q)
    | issue i =>
      exact replying_traced (issue_traced acme.caSvc i (allows_vetted (by decide) _)
        (fun q row p st hq => hissue q i row p st hq) fun q _ _ _ => hother rfl (by decide) q)
    | renew id i =>
      exact replying_traced (renew_traced acme.caSvc id i (allows_vetted (by decide) _)
        (fun q i' row p st hq _ => hissue q i' row p st hq)
        fun q _ _ _ _ _ => hother rfl (by decide) q)
    | renewExpiring withinDays i =>
      exact replying_traced (renewExpiring_traced acme.caSvc withinDays i
        (allows_vetted (by decide) _) hissue fun q _ _ _ _ => hother rfl (by decide) q)
    | finalize orderID body =>
      exact replying_traced (finalize_traced acme orderID body (allows_vetted (by decide) _)
        (fun q _ _ _ _ _ => hother rfl (by decide) q)
        (fun q _ _ _ _ _ row p st hq _ _ _ _ => hissue q _ row p st hq)
        (fun q _ _ _ _ _ _ _ _ _ _ _ => hother rfl (by decide) q)
        fun q _ _ _ _ _ _ _ _ _ => hother rfl (by decide) q)
    | _ => simp [Request.effects] at h
  · exact (serve_uses c).traced.mono (fun q s hs => vetted_of_within h hs) fun _ _ _ => trivial

/-! ## Runs -/

section Run

variable (w : World) (calls : List Call) (moves : Pool.Schedule Env)

/-- At move `m` thread `t` asks for a signature of a certificate under the parent `p`. -/
def SignsAt (m t : Nat) (p : X509) (priv : PrivateKey) : Prop :=
  ∃ e tmpl pub x, Pool.AskedAt exec (serving w calls) moves m t e
    (.host (.createCertificate tmpl (some p) pub priv)) x

/-- Before move `m` thread `t` read the row of the authority that holds this certificate and this
key, and the row was then in the table. -/
def ReadBefore (m t : Nat) (p : X509) (priv : PrivateKey) (row : CA) : Prop :=
  row.certPEM = some p ∧ row.keyEnc = some priv ∧
    ∃ i e s x, i < m ∧ Pool.AskedAt exec (serving w calls) moves i t e s x ∧
      AnswersCA row ⟨s, x⟩ ∧ row ∈ (servedUpto w calls moves i).world.ca.cas.rows

/-- Before move `m` thread `t` read this time from the clock. -/
def ClockRead (m t : Nat) (now : Go.Time) : Prop :=
  ∃ i e x, i < m ∧ Pool.AskedAt exec (serving w calls) moves i t e (.host .now) x ∧ e.now = now

/-- Before move `m` thread `t` read a time at which the certificate had not expired. -/
def Unexpired (m t : Nat) (p : X509) : Prop :=
  ∃ now, ClockRead w calls moves m t now ∧ now ≤ p.notAfter

/-- The authority whose certificate and key thread `t` signs with at move `m` was usable when it was
checked: the row that was read is active and holds the key, and the certificate had not expired at
a time the thread read from the clock. -/
def UsableWhenChecked (m t : Nat) (p : X509) (priv : PrivateKey) : Prop :=
  ∃ row, ReadBefore w calls moves m t p priv row ∧ row.status = .active ∧
    Unexpired w calls moves m t p

/-- Every authority that signs was usable when it was checked. -/
def SignersUsable : Prop :=
  ∀ m t p priv, SignsAt w calls moves m t p priv → UsableWhenChecked w calls moves m t p priv

/-- Every parent that `CreateCA` signs under was active when it was read and, where the days asked
for take a time that the call read to an earlier one, had not expired. -/
def ParentsUsable : Prop :=
  ∀ m t p priv, SignsAt w calls moves m t p priv →
    ∀ acme i, calls[t]? = some ⟨acme, .createCA i⟩ →
      (∃ row, ReadBefore w calls moves m t p priv row ∧ row.status = .active) ∧
      ((∃ now, ClockRead w calls moves m t now ∧
        now.addDays (authorityDays acme.caSvc i) < now) → Unexpired w calls moves m t p)

variable {w calls moves}

/-- A row that a query of one authority answers is in the table. -/
theorem mem_of_answersCA {e : Env} {w w' : World} {row : CA} {s : Stmt} {x : s.Ans}
    (hs : AnswersCA row ⟨s, x⟩) (h : exec e w s = some (x, w')) : row ∈ w.ca.cas.rows := by
  obtain ⟨ref, heq⟩ | heq := hs
  · cases heq
    obtain ⟨_, hx, _⟩ := exec_ca h
    have hrow := Except.ok.inj (Fault.apply_ok hx.symm).1
    exact (List.mem_filter.mp (List.mem_of_getElem? hrow)).1
  · cases heq
    obtain ⟨_, hx, _⟩ := exec_ca h
    have hrow := Except.ok.inj (Fault.apply_ok hx.symm).1
    obtain hfind | ⟨_, hhead⟩ := Option.or_eq_some_iff.mp hrow
    · exact (List.mem_filter.mp (List.mem_of_find?_eq_some hfind)).1
    · exact (List.mem_filter.mp (List.mem_of_head? hhead)).1

/-- What a thread has read of the authority it signs with, it read from the table. -/
theorem readBefore_of_read {m t : Nat} {p : X509} {priv : PrivateKey} {row : CA}
    (hm : m ≤ moves.length)
    (h : SignerRead (own t (servedUpto w calls moves m).history) row p priv) :
    ReadBefore w calls moves m t p priv row := by
  obtain ⟨⟨⟨s, x⟩, hx, hans⟩, hcert, hkey⟩ := h
  obtain ⟨i, e, hi, hasked⟩ := saw_origin hm hx
  exact ⟨hcert, hkey, i, e, s, x, hi, hasked, hans, mem_of_answersCA hans hasked.exec⟩

/-- A time that a thread has read, it read from the clock. -/
theorem clockRead_of_saw {m t : Nat} {now : Go.Time} (hm : m ≤ moves.length)
    (h : Saw (own t (servedUpto w calls moves m).history) (.host .now) now) :
    ClockRead w calls moves m t now := by
  obtain ⟨i, e, hi, hasked⟩ := saw_origin hm h
  obtain ⟨_, hhost⟩ := exec_host hasked.exec
  exact ⟨i, e, _, hi, hasked, (Prod.mk.inj (Option.some.inj hhost)).1⟩

/-- What every signer was checked for, whatever the call. -/
theorem signer_checked {m t : Nat} {p : X509} {priv : PrivateKey}
    (h : SignsAt w calls moves m t p priv) :
    ∃ c row, calls[t]? = some c ∧ ReadBefore w calls moves m t p priv row ∧
      ((∀ i, c.request ≠ .createCA i) → row.status = .active) ∧
      (Unexpired w calls moves m t p ∨ ∃ i now, c.request = .createCA i ∧
        ClockRead w calls moves m t now ∧ now.addDays (authorityDays c.replica.caSvc i) < now) := by
  obtain ⟨e, tmpl, pub, x, hasked⟩ := h
  obtain ⟨c, hc, hvetted⟩ := allowed_upto serve_vetted hasked.next
  obtain ⟨row, hread, hactive, hclock⟩ := hvetted tmpl p pub priv rfl
  have hm : m ≤ moves.length := by
    have := (List.getElem?_eq_some_iff.mp hasked.move).1
    omega
  refine ⟨c, row, hc, readBefore_of_read hm hread, hactive, ?_⟩
  rcases hclock with ⟨t', ht', hlive⟩ | ⟨i, t', hi, ht', hwrap⟩
  · exact .inl ⟨t', clockRead_of_saw hm ht', by simpa [Go.Time.after] using hlive⟩
  · exact .inr ⟨i, t', hi, clockRead_of_saw hm ht', hwrap⟩

/-- **No signing by an unusable authority**: in a run, every authority that signs was active, held
its key and was inside its validity when it was checked, exactly when every parent that `CreateCA`
signs under was active when it was read and, where the days wrap around, had not expired. -/
theorem signers_usable_iff (w : World) (calls : List Call) (moves : Pool.Schedule Env) :
    SignersUsable w calls moves ↔ ParentsUsable w calls moves := by
  constructor
  · intro h m t p priv hsigns acme i _
    obtain ⟨row, hread, hactive, hlive⟩ := h m t p priv hsigns
    exact ⟨⟨row, hread, hactive⟩, fun _ => hlive⟩
  · intro h m t p priv hsigns
    obtain ⟨c, row, hc, hread, hactive, hclock⟩ := signer_checked hsigns
    by_cases hcreate : ∃ i, c.request = .createCA i
    · obtain ⟨i, hi⟩ := hcreate
      obtain ⟨acme, request⟩ := c
      subst hi
      obtain ⟨⟨row', hread', hactive'⟩, hwrapped⟩ := h m t p priv hsigns acme i hc
      refine ⟨row', hread', hactive', ?_⟩
      rcases hclock with hlive | ⟨i', now, hi', hnow, hwrap⟩
      · exact hlive
      · cases hi'
        exact hwrapped ⟨now, hnow, hwrap⟩
    · have hno (i : Ca.CreateCAInput) : c.request ≠ .createCA i := fun hi => hcreate ⟨i, hi⟩
      refine ⟨row, hread, hactive hno, ?_⟩
      rcases hclock with hlive | ⟨i, _, hi, _⟩
      · exact hlive
      · exact absurd hi (hno i)

end Run

end

/-! ## A disabled parent -/

open Samples

/-- The root authority after it was disabled. -/
def disabledRoot : CA := { root with status := .disabled }

/-- A request for a subordinate of the disabled root. -/
def subordinateOfRoot : List Call := [⟨replica, .createCA {
  name := "Sub"
  subject := { commonName := "Sub" }
  days := 30
  parentRef := "1" }⟩]

/-- Whether a statement asks for a signature under the root. -/
def signsUnderRoot : Option Stmt → Bool
  | some (.host (.createCertificate _ (some p) _ priv)) => p == rootCert && priv == rootKey
  | _ => false

theorem exists_of_signsUnderRoot {s : Option Stmt} (h : signsUnderRoot s = true) :
    ∃ tmpl pub, s = some (.host (.createCertificate tmpl (some rootCert) pub rootKey)) := by
  unfold signsUnderRoot at h
  split at h
  · next tmpl p pub priv =>
    obtain ⟨hp, hpriv⟩ := Bool.and_eq_true_iff.mp h
    rw [beq_iff_eq.mp hp, beq_iff_eq.mp hpriv]
    exact ⟨tmpl, pub, rfl⟩
  · cases h

/-- A subordinate authority is signed by a root that had been disabled before. -/
theorem disabled_parent_signs : ¬ @SignersUsable Go.asciiRuntime (installation disabledRoot [])
    subordinateOfRoot (inTurn [0, 0, 0, 0, 0]) := by
  let _ := Go.asciiRuntime
  intro h
  have hsigns : signsUnderRoot ((servedUpto (installation disabledRoot []) subordinateOfRoot
      (inTurn [0, 0, 0, 0, 0]) 4).next? 0) = true := by decide +kernel
  obtain ⟨tmpl, pub, hnext⟩ := exists_of_signsUnderRoot hsigns
  have hasked : SignsAt (installation disabledRoot []) subordinateOfRoot
      (inTurn [0, 0, 0, 0, 0]) 4 0 rootCert rootKey :=
    ⟨_, tmpl, pub, _, .of_next rfl hnext rfl⟩
  obtain ⟨row, ⟨_, _, i, _, _, _, hi, _, _, hrow⟩, hactive, _⟩ := h 4 0 rootCert rootKey hasked
  have hrows : ∀ i < 4, (servedUpto (installation disabledRoot []) subordinateOfRoot
      (inTurn [0, 0, 0, 0, 0]) i).world.ca.cas.rows = [disabledRoot] := by decide +kernel
  rw [hrows i hi, List.mem_singleton] at hrow
  rw [hrow] at hactive
  cases hactive

end Goca
