import Goca.Laws.Evidence
import Goca.Laws.Samples

/-!
# Holds, releases and permanent revocation

A certificate revoked for any reason but a hold should stay revoked. `RevokeCertificate` touches no
row that is revoked, so the one statement that can end a revocation is the update of
`UnrevokeCertificate`, and that update has no `WHERE` clause on the status: the guard before it is
a statement of its own. A release that has passed its guard while the certificate was on hold does
not see what becomes of the certificate in between.

- `serve_guarded`: only a release asks for the update, and only right after its guard found the
  certificate on hold.
- `permanent_stays_revoked_iff`: in a run, permanent revocations stay exactly when no release is
  overtaken by one between its guard and its update.
-/

set_option autoImplicit false

namespace Goca

open Goca.Store
open Interleave (Act Prog Pool Trace Lawful own)
open Interleave.Act

/-! ## The guard of a release -/

/-- The update of `UnrevokeCertificate` comes right after its guard found the row on hold. -/
def Guarded (q : Trace sig) (s : Stmt) : Prop :=
  ∀ c, s = .ca (.unrevokeCertificate c) →
    q.getLast? = some ⟨.ca (.selectRevocation c), .ok (some (.revoked, 6))⟩

/-- Whatever has another effect, or none, is guarded. -/
theorem guarded_of_within {ks : List Effect} (h : .unrevokeCertificate ∉ ks) {q : Trace sig}
    {s : Stmt} (hs : Within ks s) : Guarded q s := by
  rintro c rfl
  exact absurd hs h

theorem unrevokeCertificate_guarded (id : Nat) (q : Trace sig) :
    (unrevokeCertificate id).Traced Guarded (fun _ _ => True) q := by
  have hguard : Guarded q (.ca (.selectRevocation id)) := nofun
  have hread : ((ca (.selectRevocation id)).mapResult row).Traced Guarded
      (fun q' a => q' = q ++ [⟨.ca (.selectRevocation id), .ok (some a)⟩]) q := by
    exact (ca_traced hguard).mapResult fun q' r a _ hr ha => hr _ (row_ok ha)
  refine hread.bind fun q₁ a _ hq₁ => ?_
  obtain ⟨status, code⟩ := a
  refine traced_failIf_eq.bind fun q₂ _ _ ⟨hq₂, hstatus⟩ => ?_
  refine traced_failIf_eq.bind fun q₃ _ _ ⟨hq₃, hcode⟩ => ?_
  refine Traced.mono (fun _ _ _ => trivial) (ca_traced (s := .unrevokeCertificate id) ?_)
  rintro c ⟨⟩
  rw [hq₃, hq₂, hq₁, List.getLast?_concat, not_not.mp hstatus, not_not.mp hcode]

/-- **Every call is guarded**: only a release asks for the update, behind its guard. -/
theorem serve_guarded [Go.Runtime] (c : Call) : c.serve.Traced Guarded (fun _ _ => True) [] := by
  by_cases h : Effect.unrevokeCertificate ∈ c.request.effects
  · obtain ⟨acme, request⟩ := c
    cases request with
    | release id actor =>
      have hwithin (q q' : Trace sig) (s : Stmt) (_ : q <+: q') : Within [] s → Guarded q' s :=
        guarded_of_within (List.not_mem_nil)
      refine replying_traced (?_ : Act.Traced Guarded (fun _ _ => True) _ _)
      refine (uses_traced (getCertificate_uses id) (hwithin _)).bind fun q₁ cert _ _ => ?_
      refine (unrevokeCertificate_guarded id q₁).bind fun q₂ _ _ _ => ?_
      exact uses_traced (audit_uses _ _ _ _ _) (hwithin _)
    | _ => simp [Request.effects] at h
  · exact (serve_uses c).traced.mono (fun q s hs => guarded_of_within h hs) fun _ _ _ => trivial

/-! ## Permanent revocation -/

/-- Certificate `c` is stored as revoked. -/
def Revoked (c : Nat) (w : World) : Prop :=
  (w.ca.certificates.get? c).any (·.status == .revoked) = true

/-- Certificate `c` is stored as revoked, for another reason than a hold. -/
def PermanentlyRevoked (c : Nat) (w : World) : Prop :=
  (w.ca.certificates.get? c).any (fun r => r.status == .revoked && r.revokeCode != 6) = true

instance (c : Nat) (w : World) : Decidable (Revoked c w) := by unfold Revoked; infer_instance

instance (c : Nat) (w : World) : Decidable (PermanentlyRevoked c w) := by
  unfold PermanentlyRevoked; infer_instance

theorem PermanentlyRevoked.revoked {c : Nat} {w : World} (h : PermanentlyRevoked c w) :
    Revoked c w := by
  unfold PermanentlyRevoked at h
  unfold Revoked
  cases hr : w.ca.certificates.get? c with
  | none => rw [hr] at h; cases h
  | some r =>
    rw [hr] at h
    exact (Bool.and_eq_true_iff.mp h).1

/-- **What ends a permanent revocation**: the update of a release, and no other statement. -/
theorem permanent_step [Go.Runtime] {e : Env} {w w' : World} {s : Stmt} {x : s.Ans}
    (h : exec e w s = some (x, w')) {c : Nat} (hp : PermanentlyRevoked c w) :
    PermanentlyRevoked c w' ∨ (s = .ca (.unrevokeCertificate c) ∧ e.fault.commits = true) := by
  unfold PermanentlyRevoked at *
  have hstep := cert_step h c
  generalize w.ca.certificates.get? c = r, w'.ca.certificates.get? c = r' at hstep hp ⊢
  cases hstep with
  | same => exact .inl hp
  | inserted n hc => cases hp
  | revoked reason r hc hr =>
    have hrev := (Bool.and_eq_true_iff.mp hp).1
    exact absurd (beq_iff_eq.mp hrev) hr
  | unrevoked r hc => exact .inr ⟨rfl, hc⟩
  | renewed p r hc => exact .inl hp

/-- A statement that found certificate `c` on hold leaves it on hold. -/
theorem not_permanent_of_guard [Go.Runtime] {e : Env} {w w' : World} {c : Nat}
    (h : exec e w (.ca (.selectRevocation c)) = some (.ok (some (.revoked, 6)), w')) :
    ¬ PermanentlyRevoked c w' := by
  obtain ⟨_, hx, rfl⟩ := exec_ca h
  obtain ⟨hrow, hw⟩ := Fault.apply_ok hx.symm
  unfold PermanentlyRevoked
  rw [hw]
  replace hrow : (w.ca.certificates.get? c).map (fun r => (r.status, r.revokeCode)) =
    some (.revoked, 6) := Except.ok.inj hrow
  obtain ⟨r, hr, hcode⟩ := Option.map_eq_some_iff.mp hrow
  cases hcode' : r.revokeCode == 6 with
  | true => simp only [CaTables.exec, hr, Option.any_some, bne, hcode']; simp
  | false => simp [(Prod.mk.inj hcode).2] at hcode'

/-! ## Runs -/

section Run

variable [Go.Runtime] (w : World) (calls : List Call) (moves : Pool.Schedule Env) (c : Nat)

/-- Once permanently revoked, certificate `c` is never stored as anything but revoked. -/
def StaysRevoked : Prop :=
  ∀ i j, i ≤ j → j ≤ moves.length → PermanentlyRevoked c (servedUpto w calls moves i).world →
    Revoked c (servedUpto w calls moves j).world

/-- At move `i` a permanent revocation of certificate `c` takes effect. -/
def RevokedForGoodAt (i : Nat) : Prop :=
  ¬ PermanentlyRevoked c (servedUpto w calls moves i).world ∧
    PermanentlyRevoked c (servedUpto w calls moves (i + 1)).world

/-- At move `j` the update of the release that thread `t` serves takes effect. -/
def ReleasedAt (t j : Nat) : Prop :=
  (servedUpto w calls moves j).next? t = some (.ca (.unrevokeCertificate c)) ∧
    ∃ e, moves[j]? = some (t, e) ∧ 0 < e.now ∧ e.fault.commits = true

/-- A release of certificate `c` is overtaken: a permanent revocation takes effect while the release
stands between its guard and its update, and then the update takes effect. -/
def ReleaseOvertaken : Prop :=
  ∃ t i j, i < j ∧
    (servedUpto w calls moves i).next? t = some (.ca (.unrevokeCertificate c)) ∧
    RevokedForGoodAt w calls moves c i ∧ ReleasedAt w calls moves c t j

variable {w calls moves c}

/-- **The step of the guard**: a thread about to release a certificate that is permanently revoked
passed its guard before that revocation. -/
theorem overtaken_before {n : Nat} (hn : n ≤ moves.length) {t : Nat}
    (hnext : (servedUpto w calls moves n).next? t = some (.ca (.unrevokeCertificate c)))
    (hp : PermanentlyRevoked c (servedUpto w calls moves n).world) :
    ∃ i, i < n ∧ (servedUpto w calls moves i).next? t = some (.ca (.unrevokeCertificate c)) ∧
      RevokedForGoodAt w calls moves c i := by
  induction n generalizing t with
  | zero =>
    -- A thread that has asked nothing yet is not behind its guard.
    obtain ⟨_, _, hg⟩ := allowed_upto serve_guarded hnext
    exact absurd (hg c rfl) (by simp [servedUpto, serving, Pool.init])
  | succ n ih =>
    obtain hs | ⟨s, k, x, w', hask, hx, hs⟩ :=
      Pool.upto_cases exec (serving w calls) (show n < moves.length by omega)
    · have hsame : servedUpto w calls moves (n + 1) = servedUpto w calls moves n := hs
      rw [hsame] at hnext hp
      obtain ⟨i, hi, h⟩ := ih (by omega) hnext hp
      exact ⟨i, by omega, h⟩
    · by_cases htu : moves[n].1 = t
      · -- The thread itself moved: its last statement is the guard, which saw a hold.
        obtain ⟨_, _, hg⟩ := allowed_upto serve_guarded hnext
        have hlast := hg c rfl
        have hhist : (servedUpto w calls moves (n + 1)).history =
            (servedUpto w calls moves n).history ++ [⟨t, s, x⟩] := by
          rw [← htu]
          exact congrArg Pool.history hs
        rw [hhist, Interleave.own_snoc_self, List.getLast?_concat] at hlast
        cases Option.some.inj hlast
        have hw : (servedUpto w calls moves (n + 1)).world = w' := congrArg Pool.world hs
        rw [hw] at hp
        exact absurd hp (not_permanent_of_guard hx)
      · have hnext' : (servedUpto w calls moves n).next? t = some (.ca (.unrevokeCertificate c)) := by
          rw [servedUpto, hs, Pool.next?_set_of_ne _ _ htu] at hnext
          exact hnext
        by_cases hp' : PermanentlyRevoked c (servedUpto w calls moves n).world
        · obtain ⟨i, hi, h⟩ := ih (by omega) hnext' hp'
          exact ⟨i, by omega, h⟩
        · exact ⟨n, by omega, hnext', hp', hp⟩

/-- The step lemma: a permanent revocation outlives a move, unless it overtook a release. -/
theorem permanent_move {n : Nat} (hn : n < moves.length)
    (hp : PermanentlyRevoked c (servedUpto w calls moves n).world)
    (hover : ¬ ReleaseOvertaken w calls moves c) :
    PermanentlyRevoked c (servedUpto w calls moves (n + 1)).world := by
  obtain hs | ⟨s, k, x, w', hask, hx, hs⟩ :=
    Pool.upto_cases exec (serving w calls) hn
  · have hsame : servedUpto w calls moves (n + 1) = servedUpto w calls moves n := hs
    rw [hsame]
    exact hp
  · have hw : (servedUpto w calls moves (n + 1)).world = w' := congrArg Pool.world hs
    obtain h | ⟨rfl, hc⟩ := permanent_step hx hp
    · rw [hw]; exact h
    · have hnext : (servedUpto w calls moves n).next? moves[n].1 =
        some (.ca (.unrevokeCertificate c)) := Pool.next?_eq_some.mpr ⟨k, hask⟩
      obtain ⟨i, hi, hbefore, hgood⟩ := overtaken_before (by omega) hnext hp
      refine absurd ⟨moves[n].1, i, n, hi, hbefore, hgood, hnext, moves[n].2, ?_, ?_, hc⟩ hover
      · rw [List.getElem?_eq_getElem hn]
      · exact exec_now_pos hx

/-- The update of a release leaves no revocation. -/
theorem not_revoked_of_released {t j : Nat} (h : ReleasedAt w calls moves c t j) :
    ¬ Revoked c (servedUpto w calls moves (j + 1)).world := by
  obtain ⟨hnext, e, hmove, hnow, hc⟩ := h
  obtain ⟨hj, hje⟩ := List.getElem?_eq_some_iff.mp hmove
  obtain ⟨k, hk⟩ := Pool.next?_eq_some.mp hnext
  have hstep : servedUpto w calls moves (j + 1) = (servedUpto w calls moves j).step exec t e := by
    rw [servedUpto, Pool.upto_succ exec _ hj, hje]
    rfl
  rw [hstep, Pool.step_of_ask hk (by rw [exec, if_pos hnow])]
  unfold Revoked
  show ¬ ((e.fault.apply _ _ : _ × CaTables).2.certificates.get? c).any _ = true
  rw [Fault.apply_commits hc, get?_unrevoke]
  cases (servedUpto w calls moves j).world.ca.certificates.get? c with
  | none => exact Bool.false_ne_true
  | some r => exact Bool.false_ne_true

/-- **Permanent revocation**: in a run of any calls, a certificate once revoked for another reason
than a hold stays revoked exactly when no release is overtaken between its guard and its update. -/
theorem permanent_stays_revoked_iff (w : World) (calls : List Call) (moves : Pool.Schedule Env)
    (c : Nat) : StaysRevoked w calls moves c ↔ ¬ ReleaseOvertaken w calls moves c := by
  constructor
  · rintro hstay ⟨t, i, j, hij, _, ⟨_, hgood⟩, hrel⟩
    have hj : j < moves.length := by
      obtain ⟨_, e, hmove, _⟩ := hrel
      exact (List.getElem?_eq_some_iff.mp hmove).1
    exact not_revoked_of_released hrel (hstay (i + 1) (j + 1) (by omega) (by omega) hgood)
  · intro hover i j hij hj hp
    -- The induction carries the stronger fact that the revocation stays permanent.
    have hperm : PermanentlyRevoked c (servedUpto w calls moves j).world := by
      induction hij with
      | refl => exact hp
      | step _ ih => exact permanent_move (by omega) (ih (by omega)) hover
    exact hperm.revoked

end Run

/-! ## A release that is overtaken -/

open Samples

/-- A database that holds one certificate, on hold. -/
def heldWorld : World :=
  installation root [{ leaf with status := .revoked, revokedAt := some 1, revokeCode := 6 }]

/-- Two releases of the certificate and its revocation for key compromise. -/
def releasesAndRevocation : List Call :=
  [⟨replica, .release 1 "a"⟩, ⟨replica, .release 1 "b"⟩, ⟨replica, .revoke 1 1 "c"⟩]

/-- The first release passes its guard, the second one is done, the revocation is done, and then the
first release updates the row. -/
def overtaking : Pool.Schedule Env := inTurn [0, 0, 1, 1, 1, 2, 2, 0]

/-- The revocation for key compromise is undone by a release that had asked before it. -/
theorem key_compromise_undone :
    ¬ @StaysRevoked Go.asciiRuntime heldWorld releasesAndRevocation overtaking 1 := by
  intro h
  have hperm : PermanentlyRevoked 1
      (@servedUpto Go.asciiRuntime heldWorld releasesAndRevocation overtaking 7).world := by
    decide +kernel
  have hnot : ¬ Revoked 1
      (@servedUpto Go.asciiRuntime heldWorld releasesAndRevocation overtaking 8).world := by
    decide +kernel
  exact hnot (h 7 8 (by decide) (by decide) hperm)

end Goca
