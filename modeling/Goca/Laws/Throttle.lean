import Mathlib.Data.Finset.Card
import Mathlib.Data.Finset.Max
import Mathlib.Tactic.Linarith
import Goca.Auth.Step

/-!
# The sign-in throttle

A sign-in with a password counts under two keys, the name as it was typed and the address it came
from. It reads the failures of both before the password is checked, and records its own behind a
check that failed. The failures are rows of a table that all replicas share, so the order of the
statements is all that matters.

`guesses_bounded` is the bound that follows: in any window at most `loginFailLimit` checks fail
under one key, as long as no sign-in under the key succeeds meanwhile, which forgets its failures,
and the reading of the failures does not fail, which lets the attempt pass. Attempts that overlap
are left out: each has to record its failure before the next one reads.
-/

set_option autoImplicit false

namespace Goca.Auth

open Interleave (Act Pool Prog Trace)
open Interleave.Act
open Sql (Table)

/-! ## Attempts -/

/-- The keys that a sign-in with a password counts under. -/
def Call.keys (c : Call) : List String :=
  match c.op with
  | .apiAuthLogin (.ok body) =>
    [userKey (Go.trimSpace body.username), ipKey c.request.clientIP]
  | .handleLoginSubmit username _ => [userKey (Go.trimSpace username), ipKey c.request.clientIP]
  | _ => []

/-- A password was checked, and it was wrong. -/
def failedCheck : (s : Stmt) × s.Ans → Prop
  | ⟨.host (.comparePassword _ _), correct⟩ => correct = false
  | ⟨.host (.ldapAuthenticate _ _), answer⟩ => answer = .error errInvalidCredentials
  | _ => False

/-- Time goes forward along the moves. -/
def Timely (moves : Pool.Schedule Env) : Prop := moves.Pairwise fun m m' => m.2.now ≤ m'.2.now

/-- The moves from `a` to `b` lie within a window. -/
def OneWindow (moves : Pool.Schedule Env) (a b : Nat) : Prop :=
  ∃ m m', moves[a]? = some m ∧ moves[b]? = some m' ∧ m'.2.now - m.2.now < loginFailWindow

section

variable [Bcrypt] [Go.Runtime]

/-- At move `i` a password check fails, of the attempt `t` that counts under the key. -/
def FailsUnder (w : World) (calls : List Call) (moves : Pool.Schedule Env) (key : String)
    (i t : Nat) : Prop :=
  (∃ c, calls[t]? = some c ∧ key ∈ c.keys) ∧
    ∃ e s x, Asked w calls moves i t e s x ∧ failedCheck ⟨s, x⟩

/-- At move `i` thread `t` reads the failures of the key. -/
def ReadsKey (w : World) (calls : List Call) (moves : Pool.Schedule Env) (key : String) (i t : Nat)
    (answer : Except Go.Error (List Instant)) : Prop :=
  ∃ e since limit, Asked w calls moves i t e (.db (.recentAuthFailures key since limit)) answer

/-- At move `i` thread `t` records a failure under the key. -/
def RecordsUnder (w : World) (calls : List Call) (moves : Pool.Schedule Env) (key : String)
    (i t : Nat) : Prop :=
  ∃ e time, Asked w calls moves i t e (.db (.insertAuthFailure key time)) (.ok ())

/-- At move `i` a sign-in under the key has succeeded, and its failures are forgotten. -/
def ForgetsKey (w : World) (calls : List Call) (moves : Pool.Schedule Env) (key : String)
    (i : Nat) : Prop :=
  ∃ t e x, Asked w calls moves i t e (.db (.clearAuthFailures key)) x

/-- The attempts under a key follow one another from move `a` to `b`, none of them succeeds, and
the table of the failures can be read and written. -/
structure Undisturbed (w : World) (calls : List Call) (moves : Pool.Schedule Env) (key : String)
    (a b : Nat) : Prop where
  /-- Before an attempt reads the failures, those of the attempts before it are recorded. -/
  follow : ∀ i j r t t' x, a ≤ i → i < j → j ≤ b → r < j → FailsUnder w calls moves key i t →
    FailsUnder w calls moves key j t' → ReadsKey w calls moves key r t' x →
      ∃ f, i < f ∧ f < r ∧ RecordsUnder w calls moves key f t
  /-- No attempt is let pass because the failures cannot be read. -/
  reads : ∀ r t x, a ≤ r → r ≤ b → ReadsKey w calls moves key r t x → ∃ recent, x = .ok recent
  /-- No sign-in under the key succeeds. -/
  kept : ∀ i, a ≤ i → i ≤ b → ¬ ForgetsKey w calls moves key i

end

/-! ## What an attempt asks -/

/-- The statements that check a password. -/
def Stmt.checksPassword : Stmt → Bool
  | .host (.comparePassword _ _) | .host (.ldapAuthenticate _ _) => true
  | _ => false

/-- The throttle let an attempt pass: the failures of the key were read, and it need not wait. -/
def Passed (key : String) (q : Trace sig) : Prop :=
  ∃ t x, (⟨.host .now, t⟩ : (s : Stmt) × s.Ans) ∈ q ∧
    (⟨.db (.recentAuthFailures key (t - loginFailWindow) loginFailLimit), x⟩ :
      (s : Stmt) × s.Ans) ∈ q ∧ ∀ recent, x = .ok recent → waitFor t recent ≤ 0

/-- No password has been checked yet. -/
def Unchecked (q : Trace sig) : Prop := ∀ x ∈ q, x.1.checksPassword = false

/-- A time that was read behind every check. -/
def ReadSince (q : Trace sig) (t : Instant) : Prop :=
  ∃ q₁ q₂, q = q₁ ++ [⟨.host .now, t⟩] ++ q₂ ∧ Unchecked q₂

/-- What a call may ask of the throttle: it checks a password only once and behind it, records a
failure with the time behind the check, and purges failures that are older than a window. -/
def ThrottleWarrant (keys : List String) (q : Trace sig) : Stmt → Prop
  | .host (.comparePassword _ _) | .host (.ldapAuthenticate _ _) =>
    ∀ key ∈ keys, Passed key q ∧ Unchecked q
  | .db (.insertAuthFailure _ t) => ReadSince q t
  | .db (.purgeAuthFailures t) =>
    (⟨.host .now, t + loginFailWindow⟩ : (s : Stmt) × s.Ans) ∈ q
  | _ => True

theorem Passed.mono {key : String} {q q' : Trace sig} (h : Passed key q) (hq : q <+: q') :
    Passed key q' := by
  obtain ⟨t, x, ht, hx, hwait⟩ := h
  exact ⟨t, x, hq.subset ht, hq.subset hx, hwait⟩

theorem Unchecked.snoc {q : Trace sig} (h : Unchecked q) {s : Stmt}
    (hs : s.checksPassword = false) (x : s.Ans) : Unchecked (q ++ [⟨s, x⟩]) := by
  intro y hy
  rcases List.mem_append.mp hy with hy | hy
  · exact h y hy
  · rw [List.mem_singleton.mp hy]
    exact hs

/-- The effects that the throttle is about. -/
abbrev counting : List Effect :=
  [.insertAuthFailure, .purgeAuthFailures, .checkPassword, .askDirectory]

section Walk

variable {ε : Type} {keys : List String} {q : Trace sig}

theorem throttle_of_within {l : List Effect} (h : ∀ k ∈ counting, k ∉ l) {s : Stmt}
    (hs : Within l s) : ThrottleWarrant keys q s := by
  unfold ThrottleWarrant
  split
  · exact absurd hs (h .checkPassword (by simp))
  · exact absurd hs (h .askDirectory (by simp))
  · exact absurd hs (h .insertAuthFailure (by simp))
  · exact absurd hs (h .purgeAuthFailures (by simp))
  · exact trivial

/-- What comes after a check and records nothing. -/
theorem quiet_throttled {α : Type} {l : List Effect} (h : ∀ k ∈ counting, k ∉ l)
    {x : Handler ε α} (hx : x.Uses (Within l)) :
    x.Traced (ThrottleWarrant keys) (fun _ _ => True) q :=
  hx.keeps (J := fun _ => True) (fun _ _ _ hs => throttle_of_within h hs)
    (fun _ _ _ _ _ => trivial) trivial |>.mono fun _ _ _ => trivial

theorem retryAfter_throttled (key : String) (hq : Unchecked q) :
    (retryAfter key : Handler ε Duration).Traced (ThrottleWarrant keys)
      (fun q' wait => Unchecked q' ∧ (wait ≤ 0 → Passed key q')) q := by
  refine Traced.bind (m := fun (q' : Trace sig) t => Unchecked q' ∧
    (⟨.host .now, t⟩ : (s : Stmt) × s.Ans) ∈ q') (host_traced (s := .now) trivial fun t =>
      ⟨hq.snoc (s := .host .now) rfl t, List.mem_append_right q (List.mem_singleton_self _)⟩) ?_
  rintro q₁ t _ ⟨hq₁, ht⟩
  refine Traced.bind (db_attempt_traced trivial) ?_
  rintro q₂ recent _ rfl
  have hpassed (h : ∀ l, recent = .ok l → waitFor t l ≤ 0) : Passed key (q₁ ++
      [⟨.db (.recentAuthFailures key (t - loginFailWindow) loginFailLimit), recent⟩]) :=
    ⟨t, recent, List.mem_append_left _ ht, List.mem_append_right _ (List.mem_singleton_self _), h⟩
  cases recent with
  | error err => exact traced_pure ⟨hq₁.snoc rfl _, fun _ => hpassed fun l hl => nomatch hl⟩
  | ok recent =>
    refine traced_pure ⟨hq₁.snoc rfl _, fun hwait => hpassed fun l hl => ?_⟩
    cases hl
    exact hwait

/-- **The throttle** lets an attempt pass that need not wait under either key. -/
theorem loginThrottle_throttled (username ip : String) (hq : Unchecked q) :
    (loginThrottle username ip : Handler ε Duration).Traced (ThrottleWarrant keys)
      (fun q' wait => wait ≤ 0 →
        ∀ key ∈ [userKey username, ipKey ip], Passed key q' ∧ Unchecked q') q := by
  refine (retryAfter_throttled (userKey username) hq).bind ?_
  rintro q₁ wait _ ⟨hq₁, huser⟩
  refine traced_ite (fun hwait => ?_) fun hwait => ?_
  · exact traced_pure fun hle => absurd hwait (not_lt.mpr hle)
  · refine (retryAfter_throttled (ipKey ip) hq₁).extends.mono ?_
    rintro q₂ wait' ⟨hq, hq₂, hip⟩ hle key hkey
    rcases List.mem_pair.mp hkey with rfl | rfl
    · exact ⟨(huser (not_lt.mp hwait)).mono hq, hq₂⟩
    · exact ⟨hip hle, hq₂⟩

theorem fail_throttled (key : String) :
    (fail key : Handler ε Unit).Traced (ThrottleWarrant keys) (fun _ _ => True) q := by
  refine Traced.bind (m := fun q' t => ReadSince q' t)
    (host_traced (s := .now) trivial fun t =>
      ⟨q, [], (List.append_nil _).symm, fun _ h => nomatch h⟩) ?_
  intro q₁ t _ ht
  refine Traced.bind (db_attempt_traced (s := .insertAuthFailure key t) ht) ?_
  intro q₂ _ _ _
  exact traced_pure trivial

theorem loginFailed_throttled (username ip : String) :
    (loginFailed username ip : Handler ε Unit).Traced (ThrottleWarrant keys)
      (fun _ _ => True) q := by
  refine (fail_throttled (userKey username)).bind ?_
  intro q₁ _ _ _
  exact fail_throttled (ipKey ip)

/-- What is asked before a check keeps what the check needs. -/
theorem before_check {l : List Effect} (h : ∀ k ∈ counting, k ∉ l)
    {α : Type} {x : Handler ε α} (hx : x.Uses (Within l))
    (hq : ∀ key ∈ keys, Passed key q ∧ Unchecked q) :
    x.Traced (ThrottleWarrant keys) (fun q' _ => ∀ key ∈ keys, Passed key q' ∧ Unchecked q') q := by
  refine hx.keeps (fun _ _ _ hs => throttle_of_within h hs) ?_ hq
  intro q' s x hkept hs key hkey
  obtain ⟨hpassed, hunchecked⟩ := hkept key hkey
  refine ⟨hpassed.mono (List.prefix_append _ _), hunchecked.snoc ?_ x⟩
  unfold Stmt.checksPassword
  split
  · exact absurd hs (h .checkPassword (by simp))
  · exact absurd hs (h .askDirectory (by simp))
  · rfl

/-- A password is checked behind the throttle, and once. -/
theorem authenticate_throttled (m : Manager) (username password : String)
    (hq : ∀ key ∈ keys, Passed key q ∧ Unchecked q) :
    (m.authenticate username password).Traced (ThrottleWarrant keys) (fun _ _ => True) q := by
  refine (before_check (l := []) (by simp) (uses_failIf _ _) hq).bind ?_
  intro q₁ _ _ h₁
  refine (before_check (l := []) (by simp) (localAccount_uses m _) h₁).bind ?_
  intro q₂ account _ h₂
  cases account with
  | some u =>
    refine (before_check (l := []) (by simp) (uses_failIf _ _) h₂).bind ?_
    intro q₃ _ _ h₃
    refine Traced.bind (m := fun _ _ => True)
      (host_traced (s := .comparePassword _ _) h₃ fun _ => trivial) ?_
    intro q₄ correct _ _
    exact quiet_throttled (l := [.touchLogin]) (by simp) ((uses_failIf _ _).bind fun _ =>
      (touchLogin_uses (by simp) u.id).attempt.bind fun _ => uses_pure u)
  | none =>
    refine traced_ite (fun _ => ?_) fun _ => traced_throw
    refine Traced.bind (m := fun _ _ => True)
      (host_traced (s := .ldapAuthenticate _ _) h₂ fun _ => trivial) ?_
    intro q₃ answer _ _
    exact quiet_throttled (l := [.insertUser, .updateUser, .touchLogin]) (by simp)
      ((uses_ofExcept answer).bind fun id => syncDirectoryUser_uses (by simp) .sourceLDAP id)

/-- Behind the throttle the password is checked, and a failure is recorded, or the failures are
forgotten. -/
theorem signIn_throttled {α : Type} (m : Manager) (username typed password ip : String)
    {failed : Go.Error → Handler ε α} {passed : User → Handler ε α}
    (hq : ∀ key ∈ keys, Passed key q ∧ Unchecked q)
    (hfailed : ∀ err q', (failed err).Traced (ThrottleWarrant keys) (fun _ _ => True) q')
    (hpassed : ∀ u q', (passed u).Traced (ThrottleWarrant keys) (fun _ _ => True) q') :
    (do
      let answer ← (m.authenticate typed password).attempt
      match answer with
      | .error err => do
        loginFailed username ip
        failed err
      | .ok u => do
        loginSucceeded username ip
        passed u : Handler ε α).Traced (ThrottleWarrant keys) (fun _ _ => True) q := by
  refine Traced.bind (m := fun _ _ => True)
    ((authenticate_throttled m typed password hq).attempt fun _ _ _ _ => trivial) ?_
  intro q₂ answer _ _
  cases answer with
  | error err =>
    refine (loginFailed_throttled username ip).bind ?_
    intro q₃ _ _ _
    exact hfailed err q₃
  | ok u =>
    refine Traced.bind (m := fun _ _ => True)
      (quiet_throttled (l := [.clearAuthFailures]) (by simp) (loginSucceeded_uses (by simp) _ _)) ?_
    intro q₃ _ _ _
    exact hpassed u q₃

theorem handleLoginSubmit_throttled (s : Server) (username password : String) (r : Request)
    (hq : Unchecked q) :
    (s.handleLoginSubmit username password r).Traced
      (ThrottleWarrant [userKey (Go.trimSpace username), ipKey r.clientIP])
      (fun _ _ => True) q := by
  refine Traced.bind (m := fun q' _ => Unchecked q') (traced_failIf fun _ => hq) ?_
  intro q₀ _ _ h₀
  refine (loginThrottle_throttled _ _ h₀).bind ?_
  intro q₁ wait _ hthrottle
  refine traced_ite (fun _ => ?_) fun hwait => ?_
  · exact quiet_throttled (l := []) (by simp)
      ((audit_uses _ _ _ _ _).bind fun _ => uses_throw _)
  · refine signIn_throttled s.auth _ _ _ _ (hthrottle (not_lt.mp hwait)) ?_ ?_
    · intro err q'
      exact quiet_throttled (l := []) (by simp)
        ((audit_uses _ _ _ _ _).bind fun _ => uses_throw _)
    · intro u q'
      exact quiet_throttled (l := [.actAs, .insertSession]) (by simp)
        (finishLogin_uses (by simp) s u r)

theorem apiAuthLogin_throttled (s : Server) (body : LoginRequest) (r : Request)
    (hq : Unchecked q) :
    (s.apiAuthLogin (.ok body) r).Traced
      (ThrottleWarrant [userKey (Go.trimSpace body.username), ipKey r.clientIP])
      (fun _ _ => True) q := by
  refine Traced.bind (m := fun q' b => b = body ∧ Unchecked q') (traced_ofExcept ?_) ?_
  · rintro b ⟨⟩
    exact ⟨rfl, hq⟩
  rintro q₀ _ _ ⟨rfl, h₀⟩
  refine Traced.bind (m := fun q' _ => Unchecked q') (traced_failIf fun _ => h₀) ?_
  intro q₁ _ _ h₁
  refine Traced.bind (m := fun q' _ => Unchecked q') (traced_failIf fun _ => h₁) ?_
  intro q₂ _ _ h₂
  refine (loginThrottle_throttled _ _ h₂).bind ?_
  intro q₃ wait _ hthrottle
  refine traced_ite (fun _ => ?_) fun hwait => ?_
  · exact quiet_throttled (l := []) (by simp)
      ((audit_uses _ _ _ _ _).bind fun _ => uses_throw _)
  · refine (before_check (l := []) (by simp) (uses_ofExcept _) (hthrottle (not_lt.mp hwait))).bind
      ?_
    intro q₄ ttl _ h₄
    refine signIn_throttled s.auth _ _ _ _ h₄ ?_ ?_
    · intro err q'
      exact quiet_throttled (l := []) (by simp)
        ((audit_uses _ _ _ _ _).bind fun _ => uses_throw _)
    · intro u q'
      refine quiet_throttled (l := [.actAs, .insertAPIToken]) (by simp) ?_
      refine (host_uses (by simp [Within, Stmt.effect?])).bind fun _ => ?_
      refine ((issueAPIToken_uses (by simp) u _ _ _).mapError _).bind fun issued => ?_
      refine (audit_uses _ _ _ _ _).bind fun _ => (audit_uses _ _ _ _ _).bind fun _ => ?_
      exact uses_pure _

theorem purgeExpired_throttled :
    purgeExpired.Traced (ThrottleWarrant keys) (fun _ _ => True) q := by
  refine Traced.bind (m := fun _ _ => True) (quiet_throttled (l := [.deleteSession]) (by simp)
    (purgeExpiredSessions_uses (by simp)).attempt) ?_
  intro q₁ _ _ _
  have hpurge : purge.Traced (ThrottleWarrant keys) (fun _ _ => True) q₁ := by
    refine Traced.bind (m := fun q' t => (⟨.host .now, t⟩ : (s : Stmt) × s.Ans) ∈ (q' : Trace sig))
      (host_traced (s := .now) trivial fun t =>
        List.mem_append_right q₁ (List.mem_singleton_self _)) ?_
    intro q₂ t _ ht
    refine db_traced (s := .purgeAuthFailures (t - loginFailWindow)) ?_ fun _ => trivial
    show (⟨.host .now, t - loginFailWindow + loginFailWindow⟩ : (s : Stmt) × s.Ans) ∈ q₂
    rw [sub_add_cancel]
    exact ht
  refine Traced.bind (m := fun _ _ => True) (hpurge.attempt fun _ _ _ _ => trivial) ?_
  intro q₃ _ _ _
  exact traced_pure trivial

/-- What a call asks that is not throttled, and is not the purge. -/
theorem unthrottled_of_within {l : List Effect} (h : .insertAuthFailure ∉ l)
    (hpurge : .purgeAuthFailures ∉ l) {s : Stmt} (hs : Within l s) : ThrottleWarrant [] q s := by
  unfold ThrottleWarrant
  split
  · exact fun _ hkey => nomatch hkey
  · exact fun _ hkey => nomatch hkey
  · exact absurd hs h
  · exact absurd hs hpurge
  · exact trivial

/-- **Every call** asks of the throttle what it may. -/
theorem serve_throttled [Go.Runtime] (c : Call) :
    c.serve.Traced (ThrottleWarrant c.keys) (fun _ _ => True) [] := by
  by_cases hc : c.op.throttled = true
  · obtain ⟨s, r, op⟩ := c
    cases op with
    | apiAuthLogin body =>
      refine answering_traced (Traced.mapError ?_)
      cases body with
      | ok body => exact apiAuthLogin_throttled s body r fun _ h => nomatch h
      | error msg =>
        refine Traced.bind (m := fun _ _ => False) (traced_ofExcept ?_) fun _ _ _ h => h.elim
        rintro _ ⟨⟩
    | handleLoginSubmit username password =>
      exact answering_traced
        (handleLoginSubmit_throttled s username password r fun _ h => nomatch h)
    | _ => cases hc
  · have hc : c.op.throttled = false := Bool.eq_false_of_not_eq_true hc
    by_cases hpurge : .purgeAuthFailures ∈ c.op.effects
    · obtain ⟨s, r, op⟩ := c
      cases op with
      | purgeExpired => exact ending_traced purgeExpired_throttled
      | _ => exact absurd hpurge (by simp [Op.effects])
    · have hkeys : c.keys = [] := by
        obtain ⟨s, r, op⟩ := c
        cases op <;> first | rfl | cases hc
      have hfailure : .insertAuthFailure ∉ c.op.effects := by
        obtain ⟨s, r, op⟩ := c
        cases op <;> simp [Op.effects]
      rw [hkeys]
      refine (serve_uses c hc (List.Subset.refl _)).traced_of ?_ ?_
      · exact fun _ _ _ hs => unthrottled_of_within hfailure hpurge hs
      · exact fun _ _ => trivial

end Walk

/-! ## The table of failures -/

/-- How many failures of the key are recorded at a time or later. -/
def World.failuresSince (w : World) (key : String) (t : Instant) : Nat :=
  w.authFailures.countP fun f => f.key == key && decide (t ≤ f.time)

section Table

variable [Bcrypt] {e : Env} {w w' : World} {key : String} {t : Instant}

/-- What a statement can do to the count: nothing, one more, or what a purge or a success takes
away. -/
theorem failures_step {s : Stmt} {x : s.Ans} (hx : exec e w s = some (x, w'))
    (hclear : s ≠ .db (.clearAuthFailures key))
    (hpurge : ∀ before, s = .db (.purgeAuthFailures before) → before < t) :
    w.failuresSince key t ≤ w'.failuresSince key t := by
  have hdone (s : DbStmt) (hclear : s ≠ .clearAuthFailures key)
      (hpurge : ∀ before, s = .purgeAuthFailures before → before < t) (pick : Nat) :
      w.failuresSince key t ≤ (w.exec pick s).2.failuresSince key t := by
    cases s with
    | insertAuthFailure key' time =>
      simp only [World.exec, World.failuresSince, List.countP_append]
      exact Nat.le_add_right _ _
    | clearAuthFailures key' =>
      simp only [World.exec, World.failuresSince, List.countP_filter]
      refine List.countP_mono_left fun f _ hf => ?_
      have hkey : f.key = key := beq_iff_eq.mp (Bool.and_eq_true_iff.mp hf).1
      have hne : f.key ≠ key' := by
        rintro rfl
        exact hclear (by rw [hkey])
      rw [hf, Bool.true_and]
      exact bne_iff_ne.mpr hne
    | purgeAuthFailures before =>
      simp only [World.exec, World.failuresSince, List.countP_filter]
      refine List.countP_mono_left fun f _ hf => ?_
      have htime : t ≤ f.time := of_decide_eq_true (Bool.and_eq_true_iff.mp hf).2
      have hbefore := hpurge before rfl
      rw [hf, Bool.true_and, Bool.not_eq_true', decide_eq_false_iff_not]
      exact not_le.mpr (lt_of_lt_of_le hbefore htime)
    | insertUser u =>
      simp only [World.exec]
      split <;> exact le_rfl
    | insertSession u =>
      simp only [World.exec]
      split <;> exact le_rfl
    | insertAPIToken u =>
      simp only [World.exec]
      split <;> exact le_rfl
    | _ => exact le_rfl
  cases s with
  | host s =>
    rw [(exec_host hx).2]
  | db s =>
    rw [(exec_db hx).2]
    rcases e.fault.apply_cases w (w.exec e.pick s) with ⟨_, _, hw⟩ | ⟨_, hw, _⟩
    · rw [hw]
    · rw [hw]
      exact hdone s (fun h => hclear (by rw [h])) (fun b h => hpurge b (by rw [h])) e.pick

/-- A failure that was recorded is one more. -/
theorem failures_recorded {time : Instant} (htime : t ≤ time)
    (hx : exec e w (.db (.insertAuthFailure key time)) = some (.ok (), w')) :
    w.failuresSince key t + 1 = w'.failuresSince key t := by
  obtain ⟨hans, hw⟩ := exec_db hx
  obtain ⟨_, hdone⟩ := Store.Fault.apply_ok hans.symm
  rw [hw, hdone]
  simp only [World.exec, World.failuresSince, List.countP_append, List.countP_cons, List.countP_nil,
    beq_self_eq_true, Bool.true_and, decide_eq_true_eq, if_pos htime, Nat.zero_add]

/-- **Enough failures within the window** make an attempt wait. -/
theorem waits_of_failures {now : Instant} {recent : List Instant} (ht : now - loginFailWindow < t)
    (hcount : loginFailLimit ≤ w.failuresSince key t)
    (hx : exec e w (.db (.recentAuthFailures key (now - loginFailWindow) loginFailLimit)) =
      some (.ok recent, w')) : 0 < waitFor now recent := by
  have hrecent := Except.ok.inj (exec_db_ok hx)
  have hin (i : Instant) (hi : i ∈ recent) : now - loginFailWindow < i := by
    rw [← hrecent] at hi
    obtain ⟨f, hf, rfl⟩ := List.mem_map.mp ((List.mem_insertionSort _).mp (List.mem_of_mem_take hi))
    exact of_decide_eq_true (Bool.and_eq_true_iff.mp (List.mem_filter.mp hf).2).2
  have hlen : recent.length = loginFailLimit := by
    rw [← hrecent, List.length_take, List.length_insertionSort, List.length_map,
      ← List.countP_eq_length_filter]
    refine min_eq_left (hcount.trans (List.countP_mono_left fun f _ hf => ?_))
    obtain ⟨hkey, htime⟩ := Bool.and_eq_true_iff.mp hf
    exact Bool.and_eq_true_iff.mpr
      ⟨hkey, decide_eq_true (lt_of_lt_of_le ht (of_decide_eq_true htime))⟩
  cases recent with
  | nil => cases hlen
  | cons first rest =>
    have hfirst : 0 < first + loginFailWindow - now := by
      have := hin first List.mem_cons_self
      linarith
    rw [waitFor, if_neg (by rw [hlen]; exact lt_irrefl _), if_pos hfirst]
    exact hfirst

end Table

/-! ## Runs -/

theorem timely_le {moves : Pool.Schedule Env} (htime : Timely moves) {i j : Nat} {m m' : Nat × Env}
    (hi : moves[i]? = some m) (hj : moves[j]? = some m') (hij : i ≤ j) : m.2.now ≤ m'.2.now := by
  obtain ⟨hil, rfl⟩ := List.getElem?_eq_some_iff.mp hi
  obtain ⟨hjl, rfl⟩ := List.getElem?_eq_some_iff.mp hj
  rcases hij.eq_or_lt with rfl | hlt
  · exact le_rfl
  · exact List.pairwise_iff_getElem.mp htime i j hil hjl hlt

section Runs

variable [Bcrypt] [Go.Runtime] {w : World} {calls : List Call} {moves : Pool.Schedule Env}
  {key : String}

/-- What a call asks, it may ask. -/
theorem throttled_of_asked {i t : Nat} {e : Env} {s : Stmt} {x : s.Ans}
    (h : Asked w calls moves i t e s x) : ∃ c, calls[t]? = some c ∧
      ThrottleWarrant c.keys (Interleave.own t (servedUpto w calls moves i).history) s := by
  have hinit : (serving w calls).Traced (fun t q s => ∃ c, calls[t]? = some c ∧
      ThrottleWarrant c.keys q s) fun _ _ _ => True := by
    refine Pool.traced_init ?_
    intro t p hp
    rw [List.getElem?_map, Option.map_eq_some_iff] at hp
    obtain ⟨c, hc, rfl⟩ := hp
    exact (serve_throttled c).mono (fun _ _ hs => ⟨c, hc, hs⟩) fun _ _ _ => trivial
  exact Pool.next_allowed (Pool.run_traced Pool.lawful_init hinit (moves.take i)).2 h.next

/-- The clock reading on a thread's trace was made at an earlier move. -/
theorem asked_of_mem {n t : Nat} (hn : n ≤ moves.length) {s : Stmt} {x : s.Ans}
    (h : (⟨s, x⟩ : (s : Stmt) × s.Ans) ∈ Interleave.own t (servedUpto w calls moves n).history) :
    ∃ i e, i < n ∧ Asked w calls moves i t e s x :=
  Pool.history_origin hn rfl (Interleave.mem_own.mp h)

omit [Bcrypt] [Go.Runtime] in
/-- A failing check is a check. -/
theorem checks_of_failed {s : Stmt} {x : s.Ans} (h : failedCheck ⟨s, x⟩) :
    s.checksPassword = true := by
  unfold failedCheck at h
  split at h
  next heq => cases heq; rfl
  next heq => cases heq; rfl
  next => exact h.elim

/-- **What lets a failing check through**: the failures of the key were read before it. -/
theorem passed_of_fails {i t : Nat} (h : FailsUnder w calls moves key i t) :
    Passed key (Interleave.own t (servedUpto w calls moves i).history) ∧
      Unchecked (Interleave.own t (servedUpto w calls moves i).history) := by
  obtain ⟨⟨c, hc, hkey⟩, e, s, x, hasked, hfailed⟩ := h
  obtain ⟨c', hc', hmay⟩ := throttled_of_asked hasked
  obtain rfl := Option.some.inj (hc.symm.trans hc')
  have hchecks := checks_of_failed hfailed
  unfold Stmt.checksPassword at hchecks
  split at hchecks
  next => exact hmay key hkey
  next => exact hmay key hkey
  next => cases hchecks

/-- An attempt has one failing check. -/
theorem fails_unique {i j t : Nat} (hi : FailsUnder w calls moves key i t)
    (hj : FailsUnder w calls moves key j t) : i = j := by
  have hlater {i j : Nat} (hi : FailsUnder w calls moves key i t)
      (hj : FailsUnder w calls moves key j t) : ¬ i < j := by
    intro hij
    obtain ⟨_, e, s, x, hasked, hfailed⟩ := hi
    have hunchecked := (passed_of_fails hj).2 _ (hasked.mem_own hij)
    rw [checks_of_failed hfailed] at hunchecked
    cases hunchecked
  have := hlater hi hj
  have := hlater hj hi
  omega

/-- A failure is recorded with a time behind its check. -/
theorem time_of_record {i f t : Nat} {e e' : Env} {s : Stmt} {x : s.Ans} {time : Instant}
    {y : Except Go.Error Unit} (htime : Timely moves) (hi : Asked w calls moves i t e s x)
    (hs : s.checksPassword = true)
    (hf : Asked w calls moves f t e' (.db (.insertAuthFailure key time)) y) (hif : i < f) :
    e.now ≤ time := by
  obtain ⟨c, _, hmay⟩ := throttled_of_asked hf
  obtain ⟨q₁, q₂, hown, hunchecked⟩ := hmay
  have hfl : f < moves.length := (List.getElem?_eq_some_iff.mp hf.move).1
  obtain ⟨m, em, hmf, hnow, hq₁⟩ := Pool.own_origin (q := q₁) (s := .host .now) (x := time)
    (le_of_lt hfl) rfl (by rw [hown]; exact List.prefix_append _ _)
  have him : i < m := by
    by_contra hle
    rcases (not_lt.mp hle).eq_or_lt with rfl | hmi
    · obtain ⟨_, rfl⟩ := hi.stmt_unique hnow
      cases hs
    · have hbetween := hunchecked _ (hnow.mem_between hi hmi hif (by rw [hown, hq₁]))
      rw [hs] at hbetween
      cases hbetween
  have hread : time = em.now := (exec_host hnow.exec).1
  rw [hread]
  exact timely_le htime hi.move hnow.move (le_of_lt him)

/-- **A recorded failure stays** for a window, unless a sign-in succeeds. -/
theorem failures_upto (htime : Timely moves) {a b n : Nat} {m m' : Nat × Env}
    (hb : moves[b]? = some m') (hwindow : m'.2.now - m.2.now < loginFailWindow)
    (hkept : ∀ i, a ≤ i → i ≤ b → ¬ ForgetsKey w calls moves key i) (han : a ≤ n) (hnb : n ≤ b) :
    (servedUpto w calls moves n).world.failuresSince key m.2.now ≤
      (servedUpto w calls moves (n + 1)).world.failuresSince key m.2.now := by
  have hbl : b < moves.length := (List.getElem?_eq_some_iff.mp hb).1
  obtain hs | ⟨s, x, hasked, _⟩ := Pool.upto_asked exec (serving w calls)
    (show n < moves.length by omega)
  · exact le_of_eq (congrArg (fun σ => σ.world.failuresSince key m.2.now) hs.symm)
  · refine failures_step hasked.exec ?_ ?_
    · rintro rfl
      exact hkept n han hnb ⟨_, _, x, hasked⟩
    · rintro before rfl
      obtain ⟨c, _, hmay⟩ := throttled_of_asked hasked
      obtain ⟨i, e, hin, hnow⟩ := asked_of_mem (by omega) hmay
      have hread : before + loginFailWindow = e.now := (exec_host hnow.exec).1
      have hle := timely_le htime hnow.move hb (by omega)
      have hle : e.now ≤ m'.2.now := hle
      linarith

/-- The failures that were recorded in a window are there. -/
theorem recorded_le (htime : Timely moves) {a b : Nat} {m m' : Nat × Env}
    (hb : moves[b]? = some m')
    (hwindow : m'.2.now - m.2.now < loginFailWindow)
    (hkept : ∀ i, a ≤ i → i ≤ b → ¬ ForgetsKey w calls moves key i) {n : Nat} (hnb : n ≤ b)
    (records : Finset Nat) (hrecords : ∀ f ∈ records, a ≤ f ∧ f < n ∧ ∃ t e time,
      Asked w calls moves f t e (.db (.insertAuthFailure key time)) (.ok ()) ∧ m.2.now ≤ time) :
    records.card ≤ (servedUpto w calls moves n).world.failuresSince key m.2.now := by
  induction n generalizing records with
  | zero =>
    have hempty : records = ∅ := Finset.eq_empty_of_forall_notMem fun f hf =>
      absurd (hrecords f hf).2.1 (Nat.not_lt_zero f)
    rw [hempty]
    exact Nat.zero_le _
  | succ n ih =>
    have hrest := ih (by omega) (records.erase n) fun f hf => by
      obtain ⟨hne, hmem⟩ := Finset.mem_erase.mp hf
      obtain ⟨haf, hfn, hasked⟩ := hrecords f hmem
      exact ⟨haf, by omega, hasked⟩
    by_cases hn : n ∈ records
    · obtain ⟨_, _, t, e, time, hasked, htime⟩ := hrecords n hn
      have hone := failures_recorded htime hasked.exec
      rw [Finset.card_erase_of_mem hn] at hrest
      show records.card ≤ (servedUpto w calls moves (n + 1)).world.failuresSince key m.2.now
      rw [← hone]
      exact Nat.le_add_of_sub_le hrest
    · rw [Finset.erase_eq_of_notMem hn] at hrest
      by_cases han : a ≤ n
      · exact hrest.trans (failures_upto htime hb hwindow hkept han (by omega))
      · have hempty : records = ∅ := Finset.eq_empty_of_forall_notMem fun f hf => by
          obtain ⟨haf, hfn, _⟩ := hrecords f hf
          omega
        rw [hempty]
        exact Nat.zero_le _

/-- Where the checks of a window have their failures recorded, the failures are as many. -/
theorem checks_le (htime : Timely moves) {a b r : Nat} {m m' : Nat × Env}
    (ha : moves[a]? = some m) (hb : moves[b]? = some m')
    (hwindow : m'.2.now - m.2.now < loginFailWindow)
    (hkept : ∀ i, a ≤ i → i ≤ b → ¬ ForgetsKey w calls moves key i) (hrb : r ≤ b)
    (checks : Finset Nat) (hchecks : ∀ i ∈ checks, a ≤ i ∧ ∃ f t, i < f ∧ f < r ∧
      FailsUnder w calls moves key i t ∧ RecordsUnder w calls moves key f t) :
    checks.card ≤ (servedUpto w calls moves r).world.failuresSince key m.2.now := by
  choose! hai record thread hif hfr hfails hrecords using hchecks
  have hinj : Set.InjOn record checks := by
    intro i hi i' hi' heq
    obtain ⟨e, time, hasked⟩ := hrecords i hi
    obtain ⟨e', time', hasked'⟩ := hrecords i' hi'
    rw [heq] at hasked
    obtain ⟨hthread, _⟩ := hasked.stmt_unique hasked'
    have hsame := hfails i hi
    rw [hthread] at hsame
    exact fails_unique hsame (hfails i' hi')
  rw [← Finset.card_image_of_injOn hinj]
  refine recorded_le htime hb hwindow hkept hrb (checks.image record) ?_
  intro f hf
  obtain ⟨i, hi, rfl⟩ := Finset.mem_image.mp hf
  have hlt := hif i hi
  obtain ⟨e', time, hasked⟩ := hrecords i hi
  obtain ⟨_, e, s, y, hchecked, hfailed⟩ := hfails i hi
  refine ⟨(hai i hi).trans (le_of_lt hlt), hfr i hi, _, e', time, hasked, ?_⟩
  calc m.2.now ≤ e.now := timely_le htime ha hchecked.move (hai i hi)
    _ ≤ time := time_of_record htime hchecked (checks_of_failed hfailed) hasked hlt

end Runs

/-! ## Guesses at a password -/

section Guesses

attribute [local instance] saltedBcrypt Go.asciiRuntime

/-- A local account whose password is its name. -/
def namesake (username : String) (id : Nat) : User where
  id
  username
  source := .sourceLocal
  role := roleUser
  passHash := "$2a$s$" ++ username

/-- One account, and no failures yet. -/
def oneAccount : World := { World.empty with
  users := Table.empty.insert (namesake "alice") fun _ => rfl }

/-- A sign-in as Alice through the API. -/
def signInFrom (ip password : String) : Call :=
  ⟨portal, { clientIP := ip }, .apiAuthLogin (.ok { username := "alice", password })⟩

/-- The threads `ts` make one move after the other, all at one instant. -/
def inTurn (ts : List Nat) : Pool.Schedule Env := ts.map fun t => (t, atOnce)

/-- Everything happens at one instant. -/
theorem timely_inTurn (ts : List Nat) : Timely (inTurn ts) :=
  List.Pairwise.map _ (fun _ _ _ => le_rfl) (List.pairwise_of_forall fun _ _ => trivial)

theorem move_inTurn {ts : List Nat} {i t : Nat} (h : ts[i]? = some t) :
    (inTurn ts)[i]? = some (t, atOnce) := by
  rw [inTurn, List.getElem?_map, h]
  rfl

theorem alice_keys (ip password : String) :
    userKey "alice" ∈ (signInFrom ip password).keys := by
  have htrim : Go.trimSpace "alice" = "alice" := by decide
  simp only [Call.keys, signInFrom, htrim, List.mem_cons, true_or]

/-- A wrong guess at Alice's password that is checked next is a failing check. -/
theorem guess_fails {calls : List Call} {ts : List Nat} {i t : Nat} (ip password : String)
    (hc : calls[t]? = some (signInFrom ip password)) (hi : ts[i]? = some t)
    (next : (servedUpto oneAccount calls (inTurn ts) i).next? t =
      some (.host (.comparePassword "$2a$s$alice" password)))
    (hwrong : Bcrypt.compare "$2a$s$alice" password = false) :
    FailsUnder oneAccount calls (inTurn ts) (userKey "alice") i t := by
  obtain ⟨x, hx⟩ := asked_of_next (move_inTurn hi) next
  refine ⟨⟨_, hc, alice_keys ip password⟩, atOnce, _, x, hx, ?_⟩
  exact (exec_host hx.exec).1.trans hwrong

/-- One call after the other, with ten moves each. -/
def callByCall (n : Nat) : List Nat := (List.range n).flatMap (List.replicate 10)

/-- A guess, from an address of its own. -/
def guess (n : Nat) : Call := signInFrom ("10.0.0." ++ toString n) ("guess" ++ toString n)

/-- Seven wrong guesses. -/
def sevenGuesses : List Call := (List.range 7).map guess

/-- Three wrong guesses from one address, a sign-in of Alice, three more guesses from another. -/
def guesses : List Call :=
  List.replicate 3 (signInFrom "10.0.0.5" "x") ++ [signInFrom "10.0.0.9" "alice"] ++
    List.replicate 3 (signInFrom "10.0.0.6" "x")

theorem move_of_seven {i : Nat} {m : Nat × Env} (h : (inTurn (callByCall 7))[i]? = some m) :
    i < 70 ∧ m = (i / 10, atOnce) := by
  have hlt : i < 70 := (List.getElem?_eq_some_iff.mp h).1
  have hthread : ∀ i < 70, (callByCall 7)[i]? = some (i / 10) := by decide
  rw [move_inTurn (hthread i hlt)] at h
  exact ⟨hlt, (Option.some.inj h).symm⟩

/-- What the guesses ask: the first five are checked, each at its sixth move, and record their
failures at their eighth moves, and none forgets a failure. -/
theorem sevenGuesses_ask :
    (∀ i < 70, ((servedUpto oneAccount sevenGuesses (inTurn (callByCall 7)) i).next? (i / 10)).any
      Stmt.checksPassword = true → i % 10 = 5 ∧ i < 50) ∧
    (∀ t < 5, (servedUpto oneAccount sevenGuesses (inTurn (callByCall 7)) (10 * t + 5)).next? t =
      some (.host (.comparePassword "$2a$s$alice" ("guess" ++ toString t)))) ∧
    (∀ t < 5, Bcrypt.compare "$2a$s$alice" ("guess" ++ toString t) = false) ∧
    (∀ t < 5, (servedUpto oneAccount sevenGuesses (inTurn (callByCall 7)) (10 * t + 7)).next? t =
      some (.db (.insertAuthFailure (userKey "alice") 0))) ∧
    ∀ i < 70, (servedUpto oneAccount sevenGuesses (inTurn (callByCall 7)) i).next? (i / 10) ≠
      some (.db (.clearAuthFailures (userKey "alice"))) := by
  decide +kernel

theorem fails_guess : ∀ t < 5,
    FailsUnder oneAccount sevenGuesses (inTurn (callByCall 7)) (userKey "alice")
      (10 * t + 5) t := by
  have hcalls : ∀ t < 5, sevenGuesses[t]? = some (guess t) := by
    intro t ht
    rw [sevenGuesses, List.getElem?_map, List.getElem?_range (by omega)]
    rfl
  have hmoves : ∀ t < 5, (callByCall 7)[10 * t + 5]? = some t := by decide
  obtain ⟨_, hnext, hwrong, _⟩ := sevenGuesses_ask
  intro t ht
  exact guess_fails _ _ (hcalls t ht) (hmoves t ht) (hnext t ht) (hwrong t ht)

/-- They record their failures at their eighth moves. -/
theorem records_guess : ∀ t < 5,
    RecordsUnder oneAccount sevenGuesses (inTurn (callByCall 7)) (userKey "alice")
      (10 * t + 7) t := by
  have hmoves : ∀ t < 5, (callByCall 7)[10 * t + 7]? = some t := by decide
  obtain ⟨_, _, _, hnext, _⟩ := sevenGuesses_ask
  intro t ht
  obtain ⟨x, hx⟩ := asked_of_next (move_inTurn (hmoves t ht)) (hnext t ht)
  obtain rfl : x = .ok () := (exec_db hx.exec).1
  exact ⟨_, _, hx⟩

theorem undisturbed_sevenGuesses :
    Undisturbed oneAccount sevenGuesses (inTurn (callByCall 7)) (userKey "alice") 0 69 := by
  have hthread {i t : Nat} {e : Env} {s : Stmt} {x : s.Ans}
      (h : Asked oneAccount sevenGuesses (inTurn (callByCall 7)) i t e s x) :
      i < 70 ∧ t = i / 10 ∧ e = atOnce := by
    obtain ⟨hlt, hm⟩ := move_of_seven h.move
    exact ⟨hlt, congrArg Prod.fst hm, congrArg Prod.snd hm⟩
  have hfails {i t : Nat}
      (h : FailsUnder oneAccount sevenGuesses (inTurn (callByCall 7)) (userKey "alice") i t) :
      i = 10 * t + 5 ∧ t < 5 := by
    obtain ⟨_, e, s, x, hcheck, hfailed⟩ := h
    obtain ⟨hlt, rfl, _⟩ := hthread hcheck
    have hchecks := sevenGuesses_ask.1 i hlt (by
      rw [hcheck.next]
      exact checks_of_failed hfailed)
    omega
  refine ⟨?_, ?_, ?_⟩
  · intro i j r t t' x _ hij _ hrj hi hj hr
    obtain ⟨er, since, limit, hread⟩ := hr
    obtain ⟨_, htr, _⟩ := hthread hread
    obtain ⟨hi, ht⟩ := hfails hi
    obtain ⟨hj, _⟩ := hfails hj
    exact ⟨10 * t + 7, by omega, by omega, records_guess t ht⟩
  · intro r t x _ _ hr
    obtain ⟨e, since, limit, hread⟩ := hr
    obtain ⟨_, _, rfl⟩ := hthread hread
    exact ⟨_, (exec_db hread.exec).1⟩
  · intro i _ _ hi
    obtain ⟨t, e, x, hclear⟩ := hi
    obtain ⟨hlt, rfl, _⟩ := hthread hclear
    exact sevenGuesses_ask.2.2.2.2 i hlt hclear.next

end Guesses

end Goca.Auth
