import Goca.Auth.Step

/-!
# The last administrator

A request that takes an administrator away counts them first, in a statement of its own. The count
protects the portal from that request, not from two of them: each may count the administrator whom
the other is about to take away. What is proved is that nothing else goes wrong. As long as one of
the administrators that a request left standing when it last looked is still there when it writes,
there is an administrator after every statement of every run.
-/

set_option autoImplicit false

namespace Goca.Auth

open Interleave (Act Pool Prog Trace)
open Interleave.Act
open Sql (Table)

/-! ## Administrators in a run -/

/-- An account that can administer the portal. -/
def User.administers (u : User) : Bool := u.isAdmin && !u.disabled

/-- Account `id` is there and can administer the portal. -/
abbrev Administers (w : World) (id : Nat) : Prop :=
  (w.users.get? id).any User.administers = true

/-- The requests that change roles, and disable and delete accounts. -/
def Op.administersUsers : Op → Bool
  | .apiUserPatch _ _ | .apiUserDelete _ | .handleUserRole _ _ | .handleUserDisable _ _
  | .handleUserDelete _ => true
  | _ => false

/-- The statements that a request looks at accounts with. -/
def Stmt.readsUsers : Stmt → Bool
  | .db (.selectUser _) | .db (.selectUserByName _) | .db .listUsers => true
  | _ => false

section

variable [Bcrypt] [Go.Runtime]

/-- After every number of moves there is an administrator. -/
def AlwaysAdministered (w : World) (calls : List Call) (moves : Pool.Schedule Env) : Prop :=
  ∀ n, ∃ id, Administers (servedUpto w calls moves n).world id

/-- At move `k` thread `t` takes administrator `id` away. -/
structure TakesAway (w : World) (calls : List Call) (moves : Pool.Schedule Env) (k t id : Nat) :
    Prop where
  asked : ∃ e s x, Asked w calls moves k t e s x
  before : Administers (servedUpto w calls moves k).world id
  after : ¬ Administers (servedUpto w calls moves (k + 1)).world id

/-- Move `c` is the last before move `k` at which thread `t` looks at accounts. -/
structure LooksLast (w : World) (calls : List Call) (moves : Pool.Schedule Env) (c k t : Nat) :
    Prop where
  order : c < k
  looks : ∃ e s x, Asked w calls moves c t e s x ∧ s.readsUsers = true
  last : ∀ j e s x, c < j → j < k → Asked w calls moves j t e s x → s.readsUsers = false

/-- A request takes an administrator away, and there were others when it last looked, but by then
other requests have taken away every one of them. -/
def Outrun (w : World) (calls : List Call) (moves : Pool.Schedule Env) : Prop :=
  ∃ t c k id, TakesAway w calls moves k t id ∧ LooksLast w calls moves c k t ∧
    (∃ other, other ≠ id ∧ Administers (servedUpto w calls moves c).world other) ∧
    ∀ other, other ≠ id → Administers (servedUpto w calls moves c).world other →
      ∃ j t', c < j ∧ j < k ∧ t' ≠ t ∧ TakesAway w calls moves j t' other

end

/-! ## What a request asks -/

/-- The account that a statement can take the administration away from. -/
def Stmt.demotes? : Stmt → Option Nat
  | .db (.updateUser id _ _ _ role) => if role = roleAdmin then none else some id
  | .db (.setUserRole id role) => if role = roleAdmin then none else some id
  | .db (.setUserDisabled id disabled) => if disabled = true then some id else none
  | .db (.deleteUser id) => some id
  | _ => none

/-- A look-up that found account `u`. -/
def Finds (x : (s : Stmt) × s.Ans) (u : User) : Prop :=
  (∃ i, x = ⟨.db (.selectUser i), .ok (some u)⟩) ∨
    ∃ name, x = ⟨.db (.selectUserByName name), .ok (some u)⟩

/-- What was asked shows that there is an administrator beside account `id`: the account was none
when it was looked up, or at least two were counted. -/
def Spares (x : (s : Stmt) × s.Ans) (id : Nat) : Prop :=
  (∃ u, Finds x u ∧ u.id = id ∧ u.isAdmin = false) ∨
    ∃ us : List User, x = ⟨.db .listUsers, .ok us⟩ ∧ 2 ≤ us.countP User.administers

/-- The last that the request looked at spares account `id`. -/
def Spared (q : Trace sig) (id : Nat) : Prop :=
  ∃ q₁ x q₂, q = q₁ ++ [x] ++ q₂ ∧ Spares x id ∧ ∀ y ∈ q₂, y.1.readsUsers = false

/-- What was asked takes nobody but account `id` away. -/
def Only (q : Trace sig) (id : Nat) : Prop := ∀ y ∈ q, ∀ i, y.1.demotes? = some i → i = id

/-- What taking an administrator away rests on. -/
def DemotionWarrant (q : Trace sig) (s : Stmt) : Prop :=
  ∀ id, s.demotes? = some id → Spared q id ∧ Only q id

/-- The state of a request that has found its target: it took nobody else away, and where the target
is no administrator, its look-up is the last that was looked at. -/
structure Steady (q : Trace sig) (target : User) : Prop where
  only : Only q target.id
  spared : target.isAdmin = false → Spared q target.id

/-- Nobody was taken away yet. -/
def Harmless (q : Trace sig) : Prop := ∀ y ∈ q, y.1.demotes? = none

section Walk

variable {ε α : Type} {q : Trace sig} {target : User}

theorem harmless_snoc {s : Stmt} {x : s.Ans} (hq : Harmless q) (hs : s.demotes? = none) :
    Harmless (q ++ [⟨s, x⟩]) := by
  intro y hy
  rcases List.mem_append.mp hy with hy | hy
  · exact hq y hy
  · rw [List.mem_singleton.mp hy]
    exact hs

theorem Harmless.only (hq : Harmless q) (id : Nat) : Only q id := by
  intro y hy i hi
  rw [hq y hy] at hi
  cases hi

theorem only_snoc {s : Stmt} {x : s.Ans} {id : Nat} (hq : Only q id)
    (hs : ∀ i, s.demotes? = some i → i = id) : Only (q ++ [⟨s, x⟩]) id := by
  intro y hy
  rcases List.mem_append.mp hy with hy | hy
  · exact hq y hy
  · rw [List.mem_singleton.mp hy]
    exact hs

/-- What the request does without looking at accounts does not change what it last looked at. -/
theorem spared_snoc {s : Stmt} {x : s.Ans} {id : Nat} (hq : Spared q id)
    (hs : s.readsUsers = false) : Spared (q ++ [⟨s, x⟩]) id := by
  obtain ⟨q₁, y, q₂, rfl, hy, hq₂⟩ := hq
  refine ⟨q₁, y, q₂ ++ [⟨s, x⟩], by simp only [List.append_assoc], hy, ?_⟩
  intro z hz
  rcases List.mem_append.mp hz with hz | hz
  · exact hq₂ z hz
  · rw [List.mem_singleton.mp hz]
    exact hs

theorem spared_of_last {x : (s : Stmt) × s.Ans} {id : Nat} (hx : Spares x id) :
    Spared (q ++ [x]) id :=
  ⟨q, x, [], (List.append_nil _).symm, hx, fun _ h => nomatch h⟩

theorem demotes_of_within {l : List Effect}
    (hks : ∀ k ∈ [Effect.updateUser, .setUserRole, .setUserDisabled, .deleteUser], k ∉ l)
    {s : Stmt} (hs : Within l s) : s.demotes? = none := by
  have hno {k : Effect} (hk : k ∈ [Effect.updateUser, .setUserRole, .setUserDisabled, .deleteUser])
      (h : s.effect? = some k) : False := by
    unfold Within at hs
    rw [h] at hs
    exact hks k hk hs
  unfold Stmt.demotes?
  split
  · exact (hno (k := .updateUser) (by simp) rfl).elim
  · exact (hno (k := .setUserRole) (by simp) rfl).elim
  · exact (hno (k := .setUserDisabled) (by simp) rfl).elim
  · exact (hno (k := .deleteUser) (by simp) rfl).elim
  · rfl

theorem warrant_of_harmless {s : Stmt} (hs : s.demotes? = none) : DemotionWarrant q s := by
  intro id hid
  rw [hs] at hid
  cases hid

/-- What takes nobody away is allowed at any time. -/
theorem quiet_demotion {l : List Effect}
    (hks : ∀ k ∈ [Effect.updateUser, .setUserRole, .setUserDisabled, .deleteUser], k ∉ l)
    {x : Handler ε α} (hx : x.Uses (Within l)) :
    x.Traced DemotionWarrant (fun _ _ => True) q :=
  Prog.Uses.traced_of hx (fun _ _ _ hs => warrant_of_harmless (demotes_of_within hks hs))
    fun _ _ _ _ => trivial

/-! ## Looking up and counting -/

theorem harmless_keeps {l : List Effect}
    (hks : ∀ k ∈ [Effect.updateUser, .setUserRole, .setUserDisabled, .deleteUser], k ∉ l)
    (q : Trace sig) (s : Stmt) (x : s.Ans) (hq : Harmless q) (hs : Within l s) :
    Harmless (q ++ [⟨s, x⟩]) := harmless_snoc hq (demotes_of_within hks hs)

theorem steady_of_finds {s : Stmt} {x : s.Ans} (hq : Harmless q) (hs : s.demotes? = none)
    (hx : Finds ⟨s, x⟩ target) : Steady (q ++ [⟨s, x⟩]) target :=
  ⟨(harmless_snoc hq hs).only _, fun hadmin => spared_of_last (.inl ⟨target, hx, rfl, hadmin⟩)⟩

theorem getUser_steady (id : Nat) (hq : Harmless q) :
    (getUser id).Traced DemotionWarrant Steady q := by
  refine row_traced (db_traced (s := .selectUser id) (warrant_of_harmless rfl) ?_)
  rintro a u rfl
  exact steady_of_finds hq rfl (.inl ⟨id, rfl⟩)

theorem getUserByName_steady (name : String) (hq : Harmless q) :
    (getUserByName name).Traced DemotionWarrant Steady q := by
  refine row_traced (db_traced (s := .selectUserByName name) (warrant_of_harmless rfl) ?_)
  rintro a u rfl
  exact steady_of_finds hq rfl (.inr ⟨name, rfl⟩)

theorem pathUser_steady (ref : String) (hq : Harmless q) :
    (pathUser ref).Traced DemotionWarrant Steady q := by
  unfold pathUser
  refine Traced.bind (m := fun q' _ => Harmless q') (traced_failIf fun _ => hq) ?_
  intro q₁ _ _ h₁
  cases pathNumber ref with
  | none => exact (getUserByName_steady ref h₁).mapError
  | some id =>
    have hread : (getUser id).run.Traced DemotionWarrant
        (fun q' r => (∀ u, r = .ok u → Steady q' u) ∧ Harmless q') q₁ :=
      Prog.Traced.and_keeps (getUser_steady id h₁) (getUser_uses (l := []) id)
        (harmless_keeps (by simp)) h₁
    refine (traced_attempt hread).bind ?_
    rintro q₂ found _ ⟨hok, h₂⟩
    cases found with
    | ok u => exact traced_pure (hok u rfl)
    | error e => exact (getUserByName_steady ref h₂).mapError

theorem lookupUser_steady (path : String) (hq : Harmless q) :
    (lookupUser path).Traced DemotionWarrant Steady q := by
  unfold lookupUser
  cases pathNumber path with
  | none => exact traced_throw
  | some id => exact (getUser_steady id hq).mapError

/-- **Counting the administrators** spares somebody, unless the answer is that the target is the
last one. -/
theorem isLastAdmin_steady (hq : Steady q target) :
    (isLastAdmin target : Handler ε Bool).Traced DemotionWarrant
      (fun q' last => Steady q' target ∧ (last = false → Spared q' target.id)) q := by
  refine traced_ite (fun hno => traced_pure ⟨hq, fun _ => hq.spared hno⟩) fun hadmin => ?_
  refine (db_attempt_traced (s := .listUsers) (warrant_of_harmless rfl)).bind ?_
  intro q₁ users _ hq₁
  have hsteady : Steady q₁ target := by
    rw [hq₁]
    exact ⟨only_snoc hq.only fun i hi => (nomatch hi), fun hno => absurd hno hadmin⟩
  cases users with
  | error e => exact traced_pure ⟨hsteady, fun h => nomatch h⟩
  | ok users =>
    refine traced_pure ⟨hsteady, ?_⟩
    intro hlast
    rw [hq₁]
    refine spared_of_last (.inr ⟨users, rfl, ?_⟩)
    have hcount := of_decide_eq_false hlast
    exact not_le.mp hcount

theorem andLastAdmin_steady (cond : Bool) (hq : Steady q target) :
    (andLastAdmin cond target : Handler ε Bool).Traced DemotionWarrant
      (fun q' last => Steady q' target ∧ (cond = true → last = false → Spared q' target.id)) q := by
  refine traced_ite (fun _ => ?_) fun hcond => traced_pure ⟨hq, fun h => absurd h hcond⟩
  exact (isLastAdmin_steady hq).mono fun q' last h => ⟨h.1, fun _ => h.2⟩

/-- A statement that can take the target away only where somebody is spared. -/
theorem demote_traced {s : DbStmt} (hq : Steady q target) (hread : Stmt.readsUsers (.db s) = false)
    (hs : ∀ i, Stmt.demotes? (.db s) = some i → i = target.id ∧ Spared q target.id) :
    (db s).Traced DemotionWarrant (fun q' _ => Steady q' target) q := by
  refine db_traced ?_ ?_
  · intro i hi
    obtain ⟨rfl, hspared⟩ := hs i hi
    exact ⟨hspared, hq.only⟩
  · intro a
    exact ⟨only_snoc hq.only fun i hi => (hs i hi).1,
      fun hno => spared_snoc (hq.spared hno) hread⟩

/-! ## The requests -/

/-- What follows a check goes on where the check let it pass. -/
theorem checked_traced {β : Type} {ok : Trace sig → β → Prop} {cond : Prop} {err : ε}
    {check : Handler ε Bool} {rest : Unit → Handler ε β}
    (hcheck : check.Traced DemotionWarrant
      (fun q' last => Steady q' target ∧ (cond → last = false → Spared q' target.id)) q)
    (hrest : ∀ q', Steady q' target → (cond → Spared q' target.id) →
      (rest ()).Traced DemotionWarrant ok q') :
    (check >>= fun last => failIf (last = true) err >>= rest).Traced DemotionWarrant ok q := by
  refine hcheck.bind ?_
  rintro q₁ last _ ⟨h₁, hspared⟩
  refine Traced.bind (m := fun q' _ => q' = q₁ ∧ last = false)
    (traced_failIf fun h => ⟨rfl, Bool.eq_false_iff.mpr h⟩) ?_
  rintro q₂ _ _ ⟨rfl, hlast⟩
  exact hrest q₂ h₁ fun hcond => hspared hcond hlast

theorem demotes_setUserRole {id i : Nat} {role : String}
    (h : Stmt.demotes? (.db (.setUserRole id (asRole role))) = some i) :
    i = id ∧ (asRole role == roleUser) = true := by
  unfold Stmt.demotes? at h
  unfold asRole at h ⊢
  by_cases hrole : role = roleAdmin
  · rw [hrole] at h
    simp at h
  · rw [if_pos hrole] at h ⊢
    have hne : roleUser ≠ roleAdmin := by decide
    simp only [if_neg hne, Option.some.injEq] at h
    exact ⟨h.symm, beq_self_eq_true _⟩

theorem demotes_setUserDisabled {id i : Nat} {disabled : Bool}
    (h : Stmt.demotes? (.db (.setUserDisabled id disabled)) = some i) :
    i = id ∧ disabled = true := by
  cases disabled with
  | false => cases h
  | true => exact ⟨(Option.some.inj h).symm, rfl⟩

theorem setUserRole_steady (role : String) (hq : Steady q target)
    (hspared : (asRole role == roleUser) = true → Spared q target.id) :
    (setUserRole target.id (asRole role)).Traced DemotionWarrant
      (fun q' _ => Steady q' target) q := by
  refine demote_traced (s := .setUserRole _ _) hq rfl ?_
  intro i hi
  obtain ⟨hid, hcond⟩ := demotes_setUserRole hi
  exact ⟨hid, hspared hcond⟩

theorem setUserDisabled_steady (disabled : Bool) (hq : Steady q target)
    (hspared : disabled = true → Spared q target.id) :
    (setUserDisabled target.id disabled).Traced DemotionWarrant
      (fun q' _ => Steady q' target) q := by
  refine demote_traced (s := .setUserDisabled _ _) hq rfl ?_
  intro i hi
  obtain ⟨hid, hcond⟩ := demotes_setUserDisabled hi
  exact ⟨hid, hspared hcond⟩

theorem deleteUser_traced (hq : Steady q target) (hspared : Spared q target.id) :
    (deleteUser target.id).Traced DemotionWarrant (fun _ _ => True) q := by
  have hdelete : (db (.deleteUser target.id)).Traced DemotionWarrant
      (fun q' _ => Steady q' target) q := by
    refine demote_traced hq rfl ?_
    intro i hi
    exact ⟨(Option.some.inj hi).symm, hspared⟩
  exact hdelete.mapResult fun _ _ _ _ _ _ => trivial

theorem patchRole_steady (role : Option String) (hq : Steady q target) :
    (patchRole target role).Traced DemotionWarrant (fun q' _ => Steady q' target) q := by
  cases role with
  | none => exact traced_pure hq
  | some role =>
    refine checked_traced (andLastAdmin_steady _ hq) ?_
    intro q' hsteady hspared
    exact (setUserRole_steady role hsteady hspared).mapError

theorem patchDisabled_traced (disabled : Option Bool) (hq : Steady q target) :
    (patchDisabled target disabled).Traced DemotionWarrant (fun _ _ => True) q := by
  cases disabled with
  | none => exact traced_pure trivial
  | some disabled =>
    refine checked_traced (andLastAdmin_steady _ hq) ?_
    intro q₁ hsteady hspared
    refine (setUserDisabled_steady disabled hsteady hspared).mapError.bind ?_
    intro q₂ _ _ _
    exact quiet_demotion (l := [.deleteSession]) (by simp) (endSessions_uses (by simp) _ _)

theorem apiUserPatch_traced (s : Server) (ref : String) (body : Except String UserPatch)
    (r : Request) (u : User) (hq : Harmless q) :
    (s.apiUserPatch ref body r u).Traced DemotionWarrant (fun _ _ => True) q := by
  refine (pathUser_steady ref hq).bind ?_
  intro q₁ target _ h₁
  refine Traced.bind (m := fun q' _ => Steady q' target) (traced_ofExcept fun _ _ => h₁) ?_
  intro q₂ body _ h₂
  refine (patchRole_steady body.role h₂).bind ?_
  intro q₃ _ _ h₃
  refine (patchDisabled_traced body.disabled h₃).bind ?_
  intro q₄ _ _ _
  refine quiet_demotion (l := [.setUserPassword]) (by simp) ?_
  refine (patchPassword_uses (by simp) s target _).bind fun _ => ?_
  exact ((getUser_uses _).mapError _).bind fun _ => (audit_uses _ _ _ _ _).bind fun _ => uses_pure _

theorem isLastAdmin_checked (hq : Steady q target) :
    (isLastAdmin target : Handler ε Bool).Traced DemotionWarrant
      (fun q' last => Steady q' target ∧ (True → last = false → Spared q' target.id)) q :=
  (isLastAdmin_steady hq).mono fun _ _ h => ⟨h.1, fun _ => h.2⟩

theorem apiUserDelete_traced (ref : String) (r : Request) (u : User) (hq : Harmless q) :
    (apiUserDelete ref r u).Traced DemotionWarrant (fun _ _ => True) q := by
  refine (pathUser_steady ref hq).bind ?_
  intro q₁ target _ h₁
  refine checked_traced (isLastAdmin_checked h₁) ?_
  intro q₂ hsteady hspared
  refine (deleteUser_traced hsteady (hspared trivial)).mapError.bind ?_
  intro q₃ _ _ _
  exact quiet_demotion (l := []) (by simp) ((audit_uses _ _ _ _ _).bind fun _ => uses_pure _)

theorem handleUserRole_traced (path role : String) (r : Request) (u : User) (hq : Harmless q) :
    (handleUserRole path role r u).Traced DemotionWarrant (fun _ _ => True) q := by
  refine (lookupUser_steady path hq).bind ?_
  intro q₁ target _ h₁
  refine checked_traced (andLastAdmin_steady _ h₁) ?_
  intro q₂ hsteady hspared
  refine (setUserRole_steady role hsteady hspared).mapError.bind ?_
  intro q₃ _ _ _
  exact quiet_demotion (l := []) (by simp) ((audit_uses _ _ _ _ _).bind fun _ => uses_pure _)

theorem handleUserDisable_traced (path : String) (disabled : Bool) (r : Request) (u : User)
    (hq : Harmless q) :
    (handleUserDisable path disabled r u).Traced DemotionWarrant (fun _ _ => True) q := by
  refine (lookupUser_steady path hq).bind ?_
  intro q₁ target _ h₁
  refine checked_traced (andLastAdmin_steady _ h₁) ?_
  intro q₂ hsteady hspared
  refine (setUserDisabled_steady disabled hsteady hspared).mapError.bind ?_
  intro q₃ _ _ _
  refine quiet_demotion (l := [.deleteSession]) (by simp) ?_
  refine (endSessions_uses (by simp) _ _).bind fun _ => ?_
  exact (audit_uses _ _ _ _ _).bind fun _ => uses_pure _

theorem handleUserDelete_traced (path : String) (r : Request) (u : User) (hq : Harmless q) :
    (handleUserDelete path r u).Traced DemotionWarrant (fun _ _ => True) q := by
  refine (lookupUser_steady path hq).bind ?_
  intro q₁ target _ h₁
  refine checked_traced (isLastAdmin_checked h₁) ?_
  intro q₂ hsteady hspared
  refine (deleteUser_traced hsteady (hspared trivial)).mapError.bind ?_
  intro q₃ _ _ _
  exact quiet_demotion (l := []) (by simp) ((audit_uses _ _ _ _ _).bind fun _ => uses_pure _)

/-- **Every request** that changes roles, or disables or deletes accounts, takes an administrator
away only after what it last looked at showed another. -/
theorem serve_spares [Go.Runtime] (c : Call) (hc : c.op.administersUsers = true) :
    c.serve.Traced DemotionWarrant (fun _ _ => True) [] := by
  have hq : Harmless ([] : Trace sig) := fun _ h => nomatch h
  have hmay (q : Trace sig) (s : Stmt) (_ : Harmless q) (hs : Within entering s) :
      DemotionWarrant q s := warrant_of_harmless (demotes_of_within (by simp) hs)
  have hkeep := harmless_keeps (l := entering) (by simp)
  obtain ⟨s, r, op⟩ := c
  cases op with
  | apiUserPatch ref body =>
    exact answering_traced (apiAuth_keeps true r hmay hkeep hq
      fun _ u h => apiUserPatch_traced s ref body r u h)
  | apiUserDelete ref =>
    exact answering_traced (apiAuth_keeps true r hmay hkeep hq
      fun _ u h => apiUserDelete_traced ref r u h)
  | handleUserRole path role =>
    exact answering_traced (requireAdmin_keeps r hmay hkeep hq
      fun _ u h => handleUserRole_traced path role r u h)
  | handleUserDisable path disabled =>
    exact answering_traced (requireAdmin_keeps r hmay hkeep hq
      fun _ u h => handleUserDisable_traced path disabled r u h)
  | handleUserDelete path =>
    exact answering_traced (requireAdmin_keeps r hmay hkeep hq
      fun _ u h => handleUserDelete_traced path r u h)
  | _ => cases hc

end Walk

/-! ## What the statements do to the administrators -/

section World

variable [Bcrypt] {e : Env} {w w' : World}

omit [Bcrypt] in
theorem administers_enabled {u : User} (h : (some u).any User.administers = true) :
    u.disabled = false := by
  rw [Option.any_some, User.administers, Bool.and_eq_true, Bool.not_eq_true'] at h
  exact h.2

omit [Bcrypt] in
theorem administers_of_role {u : User} (hrole : u.role = roleAdmin) (h : u.disabled = false) :
    (some u).any User.administers = true := by
  rw [Option.any_some, User.administers, User.isAdmin, hrole, h]
  rfl

/-- A statement that cannot take an account's administration away does not. -/
theorem administers_kept {s : Stmt} {x : s.Ans} (hx : exec e w s = some (x, w')) {id : Nat}
    (hs : s.demotes? ≠ some id) (h : Administers w id) : Administers w' id := by
  have hstep := user_step hx id
  unfold Administers at h ⊢
  generalize w.users.get? id = r at h hstep
  generalize w'.users.get? id = r' at hstep ⊢
  cases hstep with
  | same _ => exact h
  | inserted _ _ => cases h
  | @updated r _ _ _ role hstmt =>
    subst hstmt
    have hrole : role = roleAdmin := by
      by_contra hne
      exact hs (if_neg hne)
    exact administers_of_role hrole (administers_enabled (u := r) h)
  | @role r role hstmt =>
    subst hstmt
    have hrole : role = roleAdmin := by
      by_contra hne
      exact hs (if_neg hne)
    exact administers_of_role hrole (administers_enabled (u := r) h)
  | @disabled r disabled hstmt =>
    subst hstmt
    cases disabled with
    | true => exact absurd rfl hs
    | false => exact administers_of_role (beq_iff_eq.mp (Bool.and_eq_true_iff.mp h).1) rfl
  | password _ => exact h
  | touched _ => exact h
  | deleted _ hstmt =>
    subst hstmt
    exact absurd rfl hs

/-- What the request last looked at was so: there is an administrator beside the account. -/
theorem other_of_spares {s : Stmt} {x : s.Ans} (hx : exec e w s = some (x, w')) {id : Nat}
    (hs : Spares ⟨s, x⟩ id) (hw : ∃ i, Administers w i) :
    ∃ other, other ≠ id ∧ Administers w other := by
  rcases hs with ⟨u, hfound, rfl, hadmin⟩ | ⟨us, hlisted, hcount⟩
  · have hrow : u ∈ w.users.rows := by
      rcases hfound with ⟨i, heq⟩ | ⟨name, heq⟩
      · cases heq
        exact Table.mem_of_get? (found_user hx)
      · cases heq
        exact (found_userByName hx).1
    obtain ⟨i, hi⟩ := hw
    refine ⟨i, ?_, hi⟩
    rintro rfl
    have hget : w.users.get? u.id = some u := Table.get?_of_mem hrow
    unfold Administers at hi
    rw [hget, Option.any_some, User.administers, hadmin] at hi
    cases hi
  · cases hlisted
    rw [(listed_users hx).countP_eq] at hcount
    obtain ⟨u, hrow, hu, hne⟩ := Table.exists_ne_of_two_le_count hcount id
    refine ⟨u.id, hne, ?_⟩
    have hget : w.users.get? u.id = some u := Table.get?_of_mem hrow
    unfold Administers
    rw [hget]
    exact hu

end World

/-! ## Runs -/

section Runs

variable [Bcrypt] [Go.Runtime] {w : World} {calls : List Call} {moves : Pool.Schedule Env}

/-- What a request asks before it takes an administrator away. -/
theorem spared_of_asked (hcalls : ∀ c ∈ calls, c.op.administersUsers = true) {i t : Nat} {e : Env}
    {s : Stmt} {x : s.Ans} (h : Asked w calls moves i t e s x) :
    DemotionWarrant (Interleave.own t (servedUpto w calls moves i).history) s := by
  have hinit : (serving w calls).Traced (fun _ => DemotionWarrant) fun _ _ _ => True := by
    refine Pool.traced_init ?_
    intro t p hp
    obtain ⟨c, hc, rfl⟩ := List.mem_map.mp (List.mem_of_getElem? hp)
    exact serve_spares c (hcalls c hc)
  exact Pool.next_allowed (Pool.run_traced Pool.lawful_init hinit (moves.take i)).2 h.next

/-- A move that leaves an administrator none is one that takes that one away. -/
theorem takesAway_of_move {n id : Nat} (hb : Administers (servedUpto w calls moves n).world id)
    (ha : ¬ Administers (servedUpto w calls moves (n + 1)).world id) :
    ∃ t e s x, Asked w calls moves n t e s x ∧ s.demotes? = some id ∧
      TakesAway w calls moves n t id := by
  by_cases hn : n < moves.length
  · obtain hs | ⟨s, x, hasked, _⟩ := Pool.upto_asked exec (serving w calls) hn
    · have hsame : servedUpto w calls moves (n + 1) = servedUpto w calls moves n := hs
      rw [hsame] at ha
      exact absurd hb ha
    · refine ⟨_, _, s, x, hasked, ?_, ⟨_, s, x, hasked⟩, hb, ha⟩
      by_contra hno
      exact ha (administers_kept hasked.exec hno hb)
  · have hsame : servedUpto w calls moves (n + 1) = servedUpto w calls moves n :=
      Pool.upto_succ_of_le exec (serving w calls) (by omega)
    rw [hsame] at ha
    exact absurd hb ha

omit [Bcrypt] [Go.Runtime] in
theorem demotes_readsUsers {s : Stmt} {id : Nat} (h : s.demotes? = some id) :
    s.readsUsers = false := by
  unfold Stmt.demotes? at h
  split at h <;> first | rfl | cases h

/-- Up to where a request takes an administrator away, an administrator that nobody else takes away
meanwhile stays. -/
theorem other_stays {c n t id other : Nat}
    {e : Env} {s : Stmt} {x : s.Ans} (hne : other ≠ id) (hc : Asked w calls moves c t e s x)
    (hreads : s.readsUsers = true)
    (honly : Only (Interleave.own t (servedUpto w calls moves n).history) id)
    (hothers : ∀ j t', c < j → j < n → t' ≠ t → ¬ TakesAway w calls moves j t' other)
    (h : Administers (servedUpto w calls moves c).world other) {m : Nat} (hcm : c ≤ m)
    (hmn : m ≤ n) : Administers (servedUpto w calls moves m).world other := by
  induction hcm with
  | refl => exact h
  | @step m hcm ih =>
    have hcm : c ≤ m := hcm
    by_contra hgone
    obtain ⟨t', e', s', x', hasked, hdemotes, htakes⟩ :=
      takesAway_of_move (ih (by omega)) hgone
    have hlater : c < m := by
      refine lt_of_le_of_ne hcm ?_
      rintro rfl
      obtain ⟨rfl, rfl⟩ := hc.stmt_unique hasked
      rw [demotes_readsUsers hdemotes] at hreads
      cases hreads
    by_cases ht : t' = t
    · subst ht
      exact hne (honly _ (hasked.mem_own (by omega)) other hdemotes)
    · exact hothers m t' hlater (by omega) ht htakes

/-- **There is always an administrator**, in every run in which no request is outrun. -/
theorem always_administered (hcalls : ∀ c ∈ calls, c.op.administersUsers = true)
    (hw : ∃ id, Administers w id) (hrun : ¬ Outrun w calls moves) :
    AlwaysAdministered w calls moves := by
  intro n
  induction n using Nat.strong_induction_on with
  | _ n ih =>
    cases n with
    | zero => exact hw
    | succ n =>
      obtain ⟨id, hid⟩ := ih n (by omega)
      by_cases hkept : Administers (servedUpto w calls moves (n + 1)).world id
      · exact ⟨id, hkept⟩
      obtain ⟨t, e, s, x, hasked, hdemotes, htakes⟩ := takesAway_of_move hid hkept
      have hn : n < moves.length := (List.getElem?_eq_some_iff.mp hasked.move).1
      -- What the request last looked at, and an administrator that it left standing.
      obtain ⟨⟨q₁, ⟨s₀, x₀⟩, q₂, hown, hspares, hquiet⟩, honly⟩ :=
        spared_of_asked hcalls hasked id hdemotes
      obtain ⟨c, e₀, hcn, hc, hq₁⟩ := Pool.own_origin (q := q₁) (s := s₀) (x := x₀) (le_of_lt hn)
        rfl (by rw [hown]; exact List.prefix_append _ _)
      have hreads : s₀.readsUsers = true := by
        rcases hspares with ⟨u, ⟨i, heq⟩ | ⟨name, heq⟩, _⟩ | ⟨us, heq, _⟩ <;> cases heq <;> rfl
      have hlast : LooksLast w calls moves c n t := by
        refine ⟨hcn, ⟨e₀, s₀, x₀, hc, hreads⟩, ?_⟩
        intro j e' s' x' hcj hjn hj
        exact hquiet _ (hc.mem_between hj hcj hjn (by rw [hown, hq₁]))
      have hothers : ∃ other, other ≠ id ∧ Administers (servedUpto w calls moves c).world other ∧
          ∀ j t', c < j → j < n → t' ≠ t → ¬ TakesAway w calls moves j t' other := by
        by_contra hno
        have hthere := other_of_spares hc.exec hspares (ih c (by omega))
        refine hrun ⟨t, c, n, id, htakes, hlast, hthere, ?_⟩
        intro other hne hother
        by_contra hnone
        refine hno ⟨other, hne, hother, ?_⟩
        intro j t' hcj hjn ht htakes'
        exact hnone ⟨j, t', hcj, hjn, ht, htakes'⟩
      obtain ⟨other, hne, hother, hnobody⟩ := hothers
      refine ⟨other, administers_kept hasked.exec ?_ ?_⟩
      · rw [hdemotes]
        exact fun h => hne (Option.some.inj h).symm
      · exact other_stays hne hc hreads honly hnobody hother (by omega) le_rfl

end Runs

/-! ## Two administrators -/

/-- An administrator by a name. -/
def administratorNamed (username : String) (id : Nat) : User where
  id
  username
  source := .sourceLocal
  role := roleAdmin

/-- A session of account `userID`, whose cookie is `cookie`. -/
def sessionOf (userID : Nat) (cookie : String) (id : Nat) : Session where
  id
  userID
  tokenHash := hashToken cookie
  expiresAt := 10

/-- Two administrators, who have both signed in. -/
def twoAdministrators : World := { World.empty with
  users := (Table.empty.insert (administratorNamed "alice") fun _ => rfl).insert
    (administratorNamed "bob") fun _ => rfl
  sessions := (Table.empty.insert (sessionOf 1 "a") fun _ => rfl).insert
    (sessionOf 2 "b") fun _ => rfl }

/-- A request of a browser with a session. -/
def browser (cookie : String) : Request where
  cookie := some cookie
  csrfCookie := some "c"
  csrfSent := "c"

/-- Alice deletes Bob, and Bob deletes Alice. -/
def deleteEachOther : List Call :=
  [⟨portal, browser "a", .apiUserDelete "2"⟩, ⟨portal, browser "b", .handleUserDelete "1"⟩]

/-- The first request deletes behind the count of the second. -/
def bothCount : Pool.Schedule Env :=
  (List.replicate 5 0 ++ List.replicate 5 1 ++ [0, 1]).map fun t => (t, atOnce)

/-- The second request has identified Bob when the first deletes him, and counts behind that. -/
def countsBehind : Pool.Schedule Env :=
  (List.replicate 4 1 ++ List.replicate 7 0 ++ List.replicate 2 1).map fun t => (t, atOnce)

theorem deleteEachOther_administers : ∀ c ∈ deleteEachOther, c.op.administersUsers = true := by
  decide

theorem alice_administers : Administers twoAdministrators 1 := by decide

/-- Alice deletes Bob and stays: the count of his request finds her to be the last. -/
theorem administered_countsBehind :
    @AlwaysAdministered saltedBcrypt Go.asciiRuntime twoAdministrators deleteEachOther
      countsBehind := by
  let _ := Go.asciiRuntime
  let _ := saltedBcrypt
  refine always_administered deleteEachOther_administers ⟨1, alice_administers⟩ ?_
  rintro ⟨t, c, k, id, htakes, hlooks, ⟨other, _, hother⟩, hall⟩
  obtain ⟨e, s, x, hasked⟩ := htakes.asked
  have hk : k < 13 := (List.getElem?_eq_some_iff.mp hasked.move).1
  have hone : ∀ n < 14,
      Administers (servedUpto twoAdministrators deleteEachOther countsBehind n).world 1 := by
    decide +kernel
  have hid : (1 : Nat) ≠ id := by
    rintro rfl
    exact htakes.after (hone (k + 1) (by omega))
  obtain ⟨j, t', _, hj, _, htakes'⟩ := hall 1 hid (hone c (by have := hlooks.order; omega))
  exact htakes'.after (hone (j + 1) (by omega))

theorem not_administers_of_empty {w : World} (h : w.users.rows = []) (id : Nat) :
    ¬ Administers w id := by
  unfold Administers Table.get?
  rw [h]
  exact Bool.false_ne_true

/-- Two administrators who delete each other at once leave none. -/
theorem nobody_left :
    (∀ c ∈ deleteEachOther, c.op.administersUsers = true) ∧
      (∃ id, Administers twoAdministrators id) ∧
      ¬ @AlwaysAdministered saltedBcrypt Go.asciiRuntime twoAdministrators deleteEachOther
        bothCount := by
  let _ := Go.asciiRuntime
  let _ := saltedBcrypt
  refine ⟨deleteEachOther_administers, ⟨1, alice_administers⟩, ?_⟩
  intro h
  obtain ⟨id, hid⟩ := h 12
  exact not_administers_of_empty (by decide +kernel) id hid

end Goca.Auth
