import Goca.Auth.Returned
import Goca.Auth.Step
import Goca.Laws.LastAdmin

/-!
# A change of an account, as a whole

`apiUserPatch` checks and stores the role, then checks and stores the disabled mark, then checks and
stores the password, and reads the account back. An error stops it where it is: what was stored
before stays. So a request is all or nothing where nothing that can be refused comes after something
that is changed. The last administrator is looked for twice, the second time after the role is
stored and still for the account as it was read at first.

Where the connection may fail at any statement, the last read alone can turn a change that was
stored into an error, so only a request that changes nothing is all or nothing.
-/

set_option autoImplicit false

namespace Goca.Auth

open Interleave (Act Sem)
open Interleave.Act
open Sql (Table)

/-! ## What a request can change -/

/-- What a change of an account is about: its role, its disabled mark and its password hash. -/
def access (u : User) : Nat × String × Bool × String := (u.id, u.role, u.disabled, u.passHash)

/-- No account has another role, disabled mark or password hash. -/
def SameAccess (w w' : World) : Prop := w'.users.rows.map access = w.users.rows.map access

/-- An administrator of whom there is no other. -/
def IsLastAdmin (w : World) (u : User) : Prop :=
  u.isAdmin = true ∧ w.users.rows.countP User.administers ≤ 1

section Conditions

/-- The role is that of an ordinary user, and the account the last administrator. -/
def RoleRefused (w : World) (u : User) (b : UserPatch) : Prop :=
  ∃ role, b.role = some role ∧ asRole role = roleUser ∧ IsLastAdmin w u

/-- The account gets a role that it does not have. -/
def ChangesRole (u : User) (b : UserPatch) : Prop :=
  ∃ role, b.role = some role ∧ asRole role ≠ u.role

/-- The database once the role is stored. -/
def roleStored (w : World) (u : User) (b : UserPatch) : World :=
  match b.role with
  | none => w
  | some role => (w.exec 0 (.setUserRole u.id (asRole role))).2

/-- The account is to be disabled, and is the last administrator. -/
def DisableRefused (w : World) (u : User) (b : UserPatch) : Prop :=
  b.disabled = some true ∧ IsLastAdmin w u

/-- The account is disabled or enabled, and was not before. -/
def ChangesDisabled (u : User) (b : UserPatch) : Prop :=
  ∃ disabled, b.disabled = some disabled ∧ disabled ≠ u.disabled

variable [Bcrypt]

/-- The password is for an account of a directory, or too short or too long, or one that bcrypt can
refuse. -/
def PasswordRefused (u : User) (b : UserPatch) : Prop :=
  ∃ password, b.password = some password ∧ (u.source ≠ .sourceLocal ∨
    (∃ err, validatePassword password = .error err) ∨
      ∃ salt err, Bcrypt.generate password salt = .error err)

/-- A password is stored whose hash is another than the one before. -/
def ChangesPassword (u : User) (b : UserPatch) : Prop :=
  ∃ password, b.password = some password ∧ u.source = .sourceLocal ∧
    validatePassword password = .ok () ∧
      ∃ salt hash, Bcrypt.generate password salt = .ok hash ∧ hash ≠ u.passHash

/-- **Nothing that is refused comes after something that is changed.** -/
def RefusesFirst (w : World) (u : User) (b : UserPatch) : Prop :=
  RoleRefused w u b ∨
    (ChangesRole u b → ¬ DisableRefused (roleStored w u b) u b) ∧
    (ChangesRole u b ∨ ChangesDisabled u b → ¬ DisableRefused (roleStored w u b) u b →
      ¬ PasswordRefused u b)

/-- **Nothing is changed.** -/
def Idle (w : World) (u : User) (b : UserPatch) : Prop :=
  RoleRefused w u b ∨
    ¬ ChangesRole u b ∧ (DisableRefused w u b ∨ ¬ ChangesDisabled u b ∧ ¬ ChangesPassword u b)

/-- The account that the path of a request leads to. -/
def Resolves (p : Env → Bool) (w : World) (ref : String) (u : User) : Prop :=
  (pathUser ref).Returns (exec.under p) w (.ok u) w

/-- **All or nothing**: after an error every account is as it was before the request. -/
def AllOrNothing (p : Env → Bool) (s : Server) (ref : String) (body : Except String UserPatch)
    (r : Request) (caller : User) (w : World) : Prop :=
  ∀ err w', (s.apiUserPatch ref body r caller).Returns (exec.under p) w (.error err) w' →
    SameAccess w w'

end Conditions

/-! ## Accounts -/

section Accounts

variable {w w' v : World} {u : User}

theorem SameAccess.refl (w : World) : SameAccess w w := rfl

theorem SameAccess.trans (h : SameAccess w v) (h' : SameAccess v w') : SameAccess w w' :=
  Eq.trans h' h

/-- What the accounts are is in their table. -/
theorem sameAccess_of_users (h : w'.users = w.users) : SameAccess w w' := by
  unfold SameAccess
  rw [h]

/-- The row of an account shows what a request changed of it. -/
theorem SameAccess.row (h : SameAccess w w') (id : Nat) :
    (w'.users.get? id).map access = (w.users.get? id).map access := by
  have hrow (t : Table User) :
      (t.get? id).map access = (t.rows.map access).find? (·.1 == id) := by
    rw [List.find?_map]
    rfl
  rw [hrow, hrow, h]

/-- An update that leaves every account it finds as it was. -/
theorem sameAccess_update {p : User → Bool} {f : User → User} (hf : ∀ u, (f u).id = u.id)
    (h : ∀ v ∈ w.users.rows, p v = true → access (f v) = access v)
    (hw : w'.users = w.users.update p f hf) : SameAccess w w' := by
  unfold SameAccess
  rw [hw, Table.rows_update, List.map_map]
  refine List.map_congr_left fun v hv => ?_
  rw [Function.comp_apply]
  split
  · next hp => exact h v hv hp
  · rfl

/-- Whether an account is the last administrator is a question of what a request can change. -/
theorem SameAccess.lastAdmin (h : SameAccess w w') : IsLastAdmin w' u ↔ IsLastAdmin w u := by
  have hcount (t : Table User) : t.rows.countP User.administers =
      (t.rows.map access).countP fun a => a.2.1 == roleAdmin && !a.2.2.1 := by
    rw [List.countP_map]
    rfl
  unfold IsLastAdmin
  rw [hcount, hcount, h]

theorem lastAdmin_congr (h : w'.users = w.users) : IsLastAdmin w' u ↔ IsLastAdmin w u :=
  (sameAccess_of_users h).lastAdmin

end Accounts

/-! ## The last administrator -/

section Checks

variable [Bcrypt] {ε α : Type} {p : Env → Bool} {w w' : World} {u : User}

omit [Bcrypt] in
/-- The accounts of a list are counted as they are in the table. -/
theorem countP_listed (pick : Nat) {us : List User} (h : (w.exec pick .listUsers).1 = .ok us) :
    us.countP (fun u => u.isAdmin && !u.disabled) = w.users.rows.countP User.administers := by
  obtain rfl := Except.ok.inj h
  exact (List.perm_insertionSort _ _).countP_eq _

/-- **The look for the last administrator** errs on one side only: where the accounts cannot be
read. -/
theorem isLastAdmin_returns {r : Except ε Bool}
    (h : (isLastAdmin u : Handler ε Bool).Returns (exec.under p) w r w') :
    w' = w ∧ ∃ b, r = .ok b ∧ (IsLastAdmin w u → b = true) ∧
      (Calm p → b = true → IsLastAdmin w u) := by
  unfold isLastAdmin at h
  by_cases hadmin : u.isAdmin = false
  · rw [if_pos hadmin] at h
    obtain ⟨rfl, rfl⟩ := returns_pure_any.mp h
    refine ⟨rfl, false, rfl, fun hlast => ?_, fun _ hb => ?_⟩
    · rw [hlast.1] at hadmin
      exact hadmin.symm
    · cases hb
  · rw [if_neg hadmin] at h
    rw [Bool.not_eq_false] at hadmin
    obtain ⟨us, v, hus, hrest⟩ := returns_attempt_bind.mp h
    obtain rfl := db_reads (fun _ => rfl) hus
    cases us with
    | error err =>
      obtain ⟨rfl, rfl⟩ := returns_pure_any.mp hrest
      refine ⟨rfl, true, rfl, fun _ => rfl, fun hcalm _ => ?_⟩
      obtain ⟨pick, hr, -⟩ := db_of_calm hcalm hus
      cases hr
    | ok us =>
      obtain ⟨rfl, rfl⟩ := returns_pure_any.mp hrest
      obtain ⟨pick, hw, hr | ⟨err, hr⟩⟩ | ⟨-, err, hr⟩ := db_cases hus
      · rw [countP_listed pick hr.symm]
        refine ⟨rfl, _, rfl, fun hlast => decide_eq_true hlast.2, fun _ hb => ?_⟩
        exact ⟨hadmin, of_decide_eq_true hb⟩
      · cases hr
      · cases hr

/-- The look for the last administrator, where no statement fails. -/
theorem isLastAdmin_calm (hp : AdmitsCalm p) (w : World) (u : User) : ∃ b,
    (b = true ↔ IsLastAdmin w u) ∧
      (isLastAdmin u : Handler ε Bool).Returns (exec.under p) w (.ok b) w := by
  unfold isLastAdmin
  by_cases hadmin : u.isAdmin = false
  · rw [if_pos hadmin]
    refine ⟨false, ⟨fun h => absurd h Bool.false_ne_true, fun hlast => ?_⟩,
      returns_pure_any.mpr ⟨rfl, rfl⟩⟩
    rw [hlast.1] at hadmin
    exact hadmin.symm
  · rw [if_neg hadmin]
    rw [Bool.not_eq_false] at hadmin
    refine ⟨_, ?_, returns_attempt_bind.mpr
      ⟨_, w, db_calm hp .listUsers 0, returns_pure_any.mpr ⟨rfl, rfl⟩⟩⟩
    rw [countP_listed (w := w) 0 rfl, decide_eq_true_eq]
    exact ⟨fun h => ⟨hadmin, h⟩, fun h => h.2⟩

/-- A change that is refused where it takes the last administrator away. -/
def guarded (cond : Bool) (u : User) (err : ε) (x : Handler ε α) : Handler ε α := do
  let last ← andLastAdmin cond u
  failIf (last = true) err
  x

/-- **What a guarded change can come to**: it is refused, or the last administrator is not touched
and it goes ahead. -/
theorem guarded_returns {cond : Bool} {err : ε} {x : Handler ε α} {r : Except ε α}
    (h : (guarded cond u err x).Returns (exec.under p) w r w') :
    (w' = w ∧ r = .error err ∧ (Calm p → cond = true ∧ IsLastAdmin w u)) ∨
      (¬ (cond = true ∧ IsLastAdmin w u) ∧ x.Returns (exec.under p) w r w') := by
  have hcheck : ∀ {b v}, (andLastAdmin cond u : Handler ε Bool).Returns (exec.under p) w b v →
      v = w ∧ ∃ last, b = .ok last ∧ (cond = true ∧ IsLastAdmin w u → last = true) ∧
        (Calm p → last = true → cond = true ∧ IsLastAdmin w u) := by
    intro b v hb
    unfold andLastAdmin at hb
    by_cases hcond : cond = true
    · rw [if_pos hcond] at hb
      obtain ⟨hv, last, hlast, hsound, hexact⟩ := isLastAdmin_returns hb
      exact ⟨hv, last, hlast, fun h => hsound h.2, fun hp h => ⟨hcond, hexact hp h⟩⟩
    · rw [if_neg hcond] at hb
      obtain ⟨rfl, rfl⟩ := returns_pure_any.mp hb
      refine ⟨rfl, false, rfl, fun h => absurd h.1 hcond, fun _ h => ?_⟩
      cases h
  unfold guarded at h
  rcases returns_bind_any.mp h with ⟨last, v, hlast, hrest⟩ | ⟨e, -, he⟩
  · obtain ⟨rfl, last', heq, hsound, hexact⟩ := hcheck hlast
    obtain rfl := Except.ok.inj heq
    cases last with
    | true =>
      rcases returns_bind_any.mp hrest with ⟨u', v', hu, -⟩ | ⟨e, rfl, he⟩
      · exact absurd rfl (returns_failIf.mp hu).1
      · obtain rfl := returns_failIf_world he
        have herr : e = err := by
          unfold failIf at he
          rw [if_pos rfl] at he
          exact (Except.error.inj he.1).symm
        exact .inl ⟨rfl, congrArg Except.error herr, fun hp => hexact hp rfl⟩
    | false =>
      refine .inr ⟨fun h => absurd (hsound h) Bool.false_ne_true, ?_⟩
      rcases returns_bind_any.mp hrest with ⟨u', v', hu, hx⟩ | ⟨e, -, he⟩
      · obtain ⟨-, rfl⟩ := returns_failIf.mp hu
        exact hx
      · exact absurd he (not_returns_failIf_error (by decide))
  · obtain ⟨-, last', heq, -⟩ := hcheck he
    cases heq

/-- A guarded change of the last administrator is refused. -/
theorem guarded_refuses (hp : AdmitsCalm p) {cond : Bool} {err : ε} {x : Handler ε α}
    (h : cond = true ∧ IsLastAdmin w u) :
    (guarded cond u err x).Returns (exec.under p) w (.error err) w := by
  obtain ⟨b, hb, hlast⟩ := isLastAdmin_calm (ε := ε) hp w u
  obtain rfl := hb.mpr h.2
  unfold guarded andLastAdmin
  rw [if_pos h.1]
  refine returns_bind_any.mpr (.inl ⟨true, w, hlast, ?_⟩)
  refine returns_bind_any.mpr (.inr ⟨err, rfl, ?_⟩)
  unfold failIf
  rw [if_pos rfl]
  exact ⟨rfl, rfl⟩

/-- Any other goes ahead. -/
theorem guarded_goes (hp : AdmitsCalm p) {cond : Bool} {err : ε} {x : Handler ε α} {r : Except ε α}
    (h : ¬ (cond = true ∧ IsLastAdmin w u)) (hx : x.Returns (exec.under p) w r w') :
    (guarded cond u err x).Returns (exec.under p) w r w' := by
  have hcheck : (andLastAdmin cond u : Handler ε Bool).Returns (exec.under p) w (.ok false) w := by
    unfold andLastAdmin
    by_cases hcond : cond = true
    · rw [if_pos hcond]
      obtain ⟨b, hb, hlast⟩ := isLastAdmin_calm (ε := ε) hp w u
      cases b with
      | false => exact hlast
      | true => exact absurd ⟨hcond, hb.mp rfl⟩ h
    · rw [if_neg hcond]
      exact returns_pure_any.mpr ⟨rfl, rfl⟩
  unfold guarded
  refine returns_bind_any.mpr (.inl ⟨false, w, hcheck, ?_⟩)
  refine returns_bind_any.mpr (.inl ⟨(), w, ?_, hx⟩)
  exact returns_failIf.mpr ⟨by decide, rfl⟩

end Checks

/-! ## The three changes -/

section Stages

variable [Bcrypt] {p : Env → Bool} {w w' : World} {u : User}

/-- **One change of an account**: where it is refused nothing is stored, and otherwise it leaves the
accounts of another database, with or without an error if statements can fail. -/
structure Stage (p : Env → Bool) (x : Handler ApiError Unit) (refused : Prop) (w next : World) :
    Prop where
  ran : ∀ r w', x.Returns (exec.under p) w r w' →
    (w'.users = w.users ∧ ∃ err, r = .error err) ∨ (¬ refused ∧ w'.users = next.users)
  calm : Calm p → ∀ err w', x.Returns (exec.under p) w (.error err) w' →
    refused ∧ w'.users = w.users
  refuses : refused → ∃ err, x.Returns (exec.under p) w (.error err) w
  goes : ¬ refused → ∃ w', x.Returns (exec.under p) w (.ok ()) w' ∧ w'.users = next.users
  late : (∀ e, p e = true) → ¬ refused → next.users ≠ w.users →
    ∃ err w', x.Returns (exec.under p) w (.error err) w' ∧ w'.users = next.users

/-- A change that is not asked for. -/
theorem stage_pure (w : World) {refused : Prop} (h : ¬ refused) :
    Stage p (pure ()) refused w w where
  ran := by
    intro r w' hr
    obtain ⟨-, rfl⟩ := returns_pure_any.mp hr
    exact .inr ⟨h, rfl⟩
  calm := by
    intro _ err w' hr
    cases (returns_pure_any.mp hr).1
  refuses := fun hr => absurd hr h
  goes := fun _ => ⟨w, returns_pure_any.mpr ⟨rfl, rfl⟩, rfl⟩
  late := fun _ _ hne => absurd rfl hne

/-- What follows the statement of a change and leaves the accounts alone. -/
structure Coda (p : Env → Bool) (x : Handler ApiError Unit) : Prop where
  ends : ∀ w, ∃ w', x.Returns (exec.under p) w (.ok ()) w'
  keeps : ∀ w r w', x.Returns (exec.under p) w r w' → w'.users = w.users ∧ r = .ok ()

theorem coda_pure : Coda p (pure ()) where
  ends := fun w => ⟨w, returns_pure_any.mpr ⟨rfl, rfl⟩⟩
  keeps := by
    intro w r w' h
    obtain ⟨rfl, rfl⟩ := returns_pure_any.mp h
    exact ⟨rfl, rfl⟩

/-- The end of the sessions of an account, whatever comes of it. -/
theorem coda_endSessions (hp : AdmitsCalm p) (disabled : Bool) (id : Nat) :
    Coda p (endSessions disabled id) where
  ends := by
    intro w
    unfold endSessions
    by_cases hd : disabled = true
    · rw [if_pos hd]
      exact ⟨_, returns_attempt_bind.mpr ⟨_, _, db_calm hp (.deleteUserSessions id) 0,
        returns_pure_any.mpr ⟨rfl, rfl⟩⟩⟩
    · rw [if_neg hd]
      exact ⟨w, returns_pure_any.mpr ⟨rfl, rfl⟩⟩
  keeps := by
    intro w r w' h
    unfold endSessions at h
    by_cases hd : disabled = true
    · rw [if_pos hd] at h
      obtain ⟨b, v, hdb, hrest⟩ := returns_attempt_bind.mp h
      obtain ⟨rfl, rfl⟩ := returns_pure_any.mp hrest
      refine ⟨?_, rfl⟩
      obtain ⟨pick, rfl, -⟩ | ⟨rfl, -⟩ := db_cases hdb
      · rfl
      · rfl
    · rw [if_neg hd] at h
      obtain ⟨rfl, rfl⟩ := returns_pure_any.mp h
      exact ⟨rfl, rfl⟩

section Stored

variable {s : DbStmt} {a : s.Res} {next : World}

/-- A statement that the tables never refuse takes effect, unless it fails. -/
theorem stored_returns (hs : ∀ pick, w.exec pick s = (.ok a, next)) {r : Except ApiError s.Res}
    (h : (api (db s)).Returns (exec.under p) w r w') :
    (r = .ok a ∧ w' = next) ∨ (¬ Calm p ∧ (w' = w ∨ w' = next) ∧ ∃ err, r = .error err) := by
  obtain ⟨r', hr', rfl⟩ := returns_mapError_any.mp h
  obtain ⟨e, he, hx⟩ := db_returns.mp hr'
  rw [hs] at hx
  have hfails : e.fault ≠ .none → ¬ Calm p := fun hne hcalm => hne (hcalm e he)
  cases hf : e.fault with
  | none =>
    rw [hf] at hx
    obtain ⟨rfl, rfl⟩ := Prod.mk.inj hx
    exact .inl ⟨rfl, rfl⟩
  | lost text =>
    rw [hf] at hx hfails
    obtain ⟨rfl, rfl⟩ := Prod.mk.inj hx
    exact .inr ⟨hfails nofun, .inl rfl, _, rfl⟩
  | late text =>
    rw [hf] at hx hfails
    obtain ⟨rfl, rfl⟩ := Prod.mk.inj hx
    exact .inr ⟨hfails nofun, .inr rfl, _, rfl⟩

theorem stored_goes (hp : AdmitsCalm p) (hs : ∀ pick, w.exec pick s = (.ok a, next)) :
    (api (db s)).Returns (exec.under p) w (.ok a) next := by
  have h := db_calm (w := w) hp s 0
  rw [hs] at h
  exact returns_mapError.mpr h

theorem stored_late (hp : ∀ e, p e = true) (hs : ∀ pick, w.exec pick s = (.ok a, next)) :
    ∃ err, (api (db s)).Returns (exec.under p) w (.error err) next := by
  have h := db_late (w := w) hp s
  rw [hs] at h
  exact ⟨_, returns_mapError_any.mpr ⟨_, h, rfl⟩⟩

/-- **A guarded change** by a statement that the tables never refuse, and what follows it. -/
theorem stage_guarded (hp : AdmitsCalm p) {cond : Bool} {err : ApiError}
    (hs : ∀ pick, w.exec pick s = (.ok a, next)) {x : Handler ApiError Unit} (hx : Coda p x) :
    Stage p (guarded cond u err (api (db s) >>= fun _ => x)) (cond = true ∧ IsLastAdmin w u) w
      next where
  ran := by
    intro r w' h
    rcases guarded_returns h with ⟨rfl, rfl, -⟩ | ⟨hgo, h⟩
    · exact .inl ⟨rfl, _, rfl⟩
    · rcases returns_bind_any.mp h with ⟨b, v, hb, hrest⟩ | ⟨e, rfl, he⟩
      · obtain ⟨-, rfl⟩ | ⟨-, -, e, he⟩ := stored_returns hs hb
        · exact .inr ⟨hgo, (hx.keeps _ _ _ hrest).1⟩
        · cases he
      · obtain ⟨he, -⟩ | ⟨-, rfl | rfl, -⟩ := stored_returns hs he
        · cases he
        · exact .inl ⟨rfl, _, rfl⟩
        · exact .inr ⟨hgo, rfl⟩
  calm := by
    intro hcalm e w' h
    rcases guarded_returns h with ⟨rfl, -, hrefused⟩ | ⟨-, h⟩
    · exact ⟨hrefused hcalm, rfl⟩
    · rcases returns_bind_any.mp h with ⟨b, v, -, hrest⟩ | ⟨e, -, he⟩
      · cases (hx.keeps _ _ _ hrest).2
      · obtain ⟨he, -⟩ | ⟨hnot, -⟩ := stored_returns hs he
        · cases he
        · exact absurd hcalm hnot
  refuses := fun h => ⟨err, guarded_refuses hp h⟩
  goes := by
    intro hgo
    obtain ⟨w', hend⟩ := hx.ends next
    refine ⟨w', guarded_goes hp hgo ?_, (hx.keeps _ _ _ hend).1⟩
    exact returns_bind_any.mpr (.inl ⟨a, next, stored_goes hp hs, hend⟩)
  late := by
    intro hall hgo _
    obtain ⟨e, he⟩ := stored_late hall hs
    exact ⟨e, next, guarded_goes hp hgo (returns_bind_any.mpr (.inr ⟨e, rfl, he⟩)), rfl⟩

end Stored

/-- The change of the role. -/
theorem stage_role (hp : AdmitsCalm p) (w : World) (u : User) (b : UserPatch) :
    Stage p (patchRole u b.role) (RoleRefused w u b) w (roleStored w u b) := by
  unfold roleStored RoleRefused
  cases b.role with
  | none => exact stage_pure w (by simp)
  | some role =>
    have hstored : ∀ pick, w.exec pick (.setUserRole u.id (asRole role)) =
        (.ok (), (w.exec 0 (.setUserRole u.id (asRole role))).2) := fun _ => rfl
    have hstage : Stage p (guarded (asRole role == roleUser) u
        (badRequest "that is the last administrator; promote someone else first") _) _ w _ :=
      stage_guarded hp hstored coda_pure
    rw [bind_pure_unit] at hstage
    have hrefused : (∃ r, some role = some r ∧ asRole r = roleUser ∧ IsLastAdmin w u) =
        ((asRole role == roleUser) = true ∧ IsLastAdmin w u) := by
      simp
    rw [hrefused]
    exact hstage

/-- The database once the disabled mark is stored. -/
def disabledStored (w : World) (u : User) (b : UserPatch) : World :=
  match b.disabled with
  | none => w
  | some disabled => (w.exec 0 (.setUserDisabled u.id disabled)).2

/-- The change of the disabled mark. -/
theorem stage_disabled (hp : AdmitsCalm p) (w : World) (u : User) (b : UserPatch) :
    Stage p (patchDisabled u b.disabled) (DisableRefused w u b) w (disabledStored w u b) := by
  unfold disabledStored DisableRefused
  cases b.disabled with
  | none => exact stage_pure w (by simp)
  | some disabled =>
    have hstored : ∀ pick, w.exec pick (.setUserDisabled u.id disabled) =
        (.ok (), (w.exec 0 (.setUserDisabled u.id disabled)).2) := fun _ => rfl
    have hstage : Stage p (guarded disabled u
        (badRequest "that is the last administrator; it cannot be disabled") _) _ w _ :=
      stage_guarded hp hstored (coda_endSessions hp disabled u.id)
    rw [Option.some.injEq]
    exact hstage

/-- A password that can be stored for an account, with a hash that bcrypt can make of it. -/
def Storable (u : User) (b : UserPatch) (hash : String) : Prop :=
  ∃ password salt, b.password = some password ∧ u.source = .sourceLocal ∧
    validatePassword password = .ok () ∧ Bcrypt.generate password salt = .ok hash

/-- The database once a password is stored. -/
def passwordStored (w : World) (u : User) (hash : String) : World :=
  (w.exec 0 (.setUserPassword u.id hash)).2

variable {s : Server} {b : UserPatch}

/-- What comes of a hash is what the host made. -/
theorem hashPassword_returns {password : String} {r : Except Go.Error String}
    (h : (hashPassword password).Returns (exec.under p) w r w') :
    w' = w ∧ ∃ salt, r = Bcrypt.generate password salt := by
  unfold hashPassword at h
  rcases returns_bind_any.mp h with ⟨answer, v, hv, hrest⟩ | ⟨e, rfl, he⟩
  · obtain ⟨rfl, e, -, hans⟩ := host_returns.mp hv
    obtain ⟨rfl, rfl⟩ := returns_ofExcept_any.mp hrest
    obtain rfl := Except.ok.inj hans
    exact ⟨rfl, e.token, rfl⟩
  · obtain ⟨-, e, -, hans⟩ := host_returns.mp he
    cases hans

theorem hashPassword_goes (hp : AdmitsCalm p) (password salt : String) :
    (hashPassword password).Returns (exec.under p) w (Bcrypt.generate password salt) w := by
  unfold hashPassword
  refine returns_bind_any.mpr (.inl ⟨Bcrypt.generate password salt, w, ?_, ?_⟩)
  · exact host_returns.mpr ⟨rfl, { now := 0, token := salt }, hp _ rfl, rfl⟩
  · exact returns_ofExcept_any.mpr ⟨rfl, rfl⟩

/-- The end of `SetPassword`, after the hash is stored: it is written to the configuration file of
the break-glass administrator. -/
def Manager.keepBreakGlass (m : Manager) (u : User) (hash : String) : Handler Go.Error Unit :=
  if Go.equalFoldASCII u.username m.localAdminUsername = true ∧ m.path ≠ "" then do
    let answer ← host (.saveConfig hash)
    Act.ofExcept (answer.mapError fun err =>
      .wrap ("password changed, but writing " ++ m.path ++ " failed: ") err "")
  else pure ()

theorem keepBreakGlass_returns {m : Manager} {hash : String} {r : Except Go.Error Unit}
    (h : (m.keepBreakGlass u hash).Returns (exec.under p) w r w') :
    w' = w ∧ (Calm p → r = .ok ()) := by
  unfold Manager.keepBreakGlass at h
  split at h
  · rcases returns_bind_any.mp h with ⟨answer, v, hv, hrest⟩ | ⟨e, rfl, he⟩
    · obtain ⟨rfl, e, hpe, hans⟩ := host_returns.mp hv
      obtain ⟨rfl, rfl⟩ := returns_ofExcept_any.mp hrest
      obtain rfl := Except.ok.inj hans
      refine ⟨rfl, fun hcalm => ?_⟩
      simp only [hostExec, hcalm e hpe]
      rfl
    · obtain ⟨-, e, -, hans⟩ := host_returns.mp he
      cases hans
  · obtain ⟨rfl, rfl⟩ := returns_pure_any.mp h
    exact ⟨rfl, fun _ => rfl⟩

/-- **What `SetPassword` can come to**: the password is refused and nothing is stored, or a hash of
it is stored. -/
theorem setPassword_returns {m : Manager} {password : String} (hb : b.password = some password)
    {r : Except Go.Error Unit} (h : (m.setPassword u password).Returns (exec.under p) w r w') :
    (w' = w ∧ (Calm p → PasswordRefused u b)) ∨
      ∃ hash, Storable u b hash ∧ (w' = w ∨ w' = passwordStored w u hash) ∧
        (Calm p → r = .ok ()) := by
  unfold Manager.setPassword at h
  rcases returns_bind_any.mp h with ⟨_, _, hcheck, hchecked⟩ | ⟨e, rfl, he⟩
  · obtain ⟨hsource, rfl⟩ := returns_failIf.mp hcheck
    have hlocal : u.source = .sourceLocal := not_not.mp hsource
    rcases returns_bind_any.mp hchecked with ⟨_, _, hpolicy, haccepted⟩ | ⟨e, rfl, he⟩
    · obtain ⟨hvalid, rfl⟩ := returns_ofExcept.mp hpolicy
      rcases returns_bind_any.mp haccepted with ⟨hash, _, hhash, hhashed⟩ | ⟨e, rfl, he⟩
      · obtain ⟨rfl, salt, hmade⟩ := hashPassword_returns hhash
        have hstorable : Storable u b hash := ⟨password, salt, hb, hlocal, hvalid, hmade.symm⟩
        refine .inr ⟨hash, hstorable, ?_⟩
        rcases returns_bind_any.mp hhashed with ⟨_, _, hstore, hend⟩ | ⟨e, rfl, he⟩
        · obtain ⟨rfl, hok⟩ := keepBreakGlass_returns hend
          obtain ⟨pick, rfl, -⟩ | ⟨-, err, herr⟩ := db_cases hstore
          · exact ⟨.inr rfl, hok⟩
          · cases herr
        · have hfails : ¬ Calm p := fun hcalm => by
            obtain ⟨_, herr, -⟩ := db_of_calm hcalm he
            cases herr
          obtain ⟨pick, rfl, -⟩ | ⟨rfl, -⟩ := db_cases he
          · exact ⟨.inr rfl, fun hcalm => absurd hcalm hfails⟩
          · exact ⟨.inl rfl, fun hcalm => absurd hcalm hfails⟩
      · obtain ⟨rfl, salt, hmade⟩ := hashPassword_returns he
        exact .inl ⟨rfl, fun _ => ⟨password, hb, .inr (.inr ⟨salt, e, hmade.symm⟩)⟩⟩
    · obtain ⟨hvalid, rfl⟩ := returns_ofExcept_any.mp he
      exact .inl ⟨rfl, fun _ => ⟨password, hb, .inr (.inl ⟨e, hvalid⟩)⟩⟩
  · obtain rfl := returns_failIf_world he
    refine .inl ⟨rfl, fun _ => ⟨password, hb, .inl ?_⟩⟩
    intro hlocal
    exact not_returns_failIf_error (not_not.mpr hlocal) he

/-- A password that can be refused is refused in some run. -/
theorem setPassword_refuses (hp : AdmitsCalm p) {m : Manager} (w : World)
    (h : PasswordRefused u b) {password : String} (hb : b.password = some password) :
    ∃ err, (m.setPassword u password).Returns (exec.under p) w (.error err) w := by
  obtain ⟨password', hb', hrefused⟩ := h
  obtain rfl := Option.some.inj (hb.symm.trans hb')
  unfold Manager.setPassword
  by_cases hlocal : u.source = .sourceLocal
  · have hcheck : (failIf (u.source ≠ .sourceLocal)
        (.new "passwords for directory accounts are managed in LDAP") :
          Handler Go.Error Unit).Returns (exec.under p) w (.ok ()) w :=
      returns_failIf.mpr ⟨not_not.mpr hlocal, rfl⟩
    cases hvalid : validatePassword password with
    | error err =>
      refine ⟨err, returns_bind_any.mpr (.inl ⟨_, w, hcheck, ?_⟩)⟩
      exact returns_bind_any.mpr (.inr ⟨err, rfl, returns_ofExcept_any.mpr ⟨rfl, rfl⟩⟩)
    | ok _ =>
      obtain hsource | ⟨err, hinvalid⟩ | ⟨salt, err, hmade⟩ := hrefused
      · exact absurd hlocal hsource
      · rw [hvalid] at hinvalid
        cases hinvalid
      · have hhash := hashPassword_goes (w := w) hp password salt
        rw [hmade] at hhash
        refine ⟨err, returns_bind_any.mpr (.inl ⟨_, w, hcheck, ?_⟩)⟩
        refine returns_bind_any.mpr (.inl ⟨(), w, returns_ofExcept_any.mpr ⟨rfl, rfl⟩, ?_⟩)
        exact returns_bind_any.mpr (.inr ⟨err, rfl, hhash⟩)
  · have hcheck : (failIf (u.source ≠ .sourceLocal)
        (.new "passwords for directory accounts are managed in LDAP") :
          Handler Go.Error Unit).Returns (exec.under p) w
            (.error (.new "passwords for directory accounts are managed in LDAP")) w := by
      unfold failIf
      rw [if_pos hlocal]
      exact ⟨rfl, rfl⟩
    exact ⟨_, returns_bind_any.mpr (.inr ⟨_, rfl, hcheck⟩)⟩

/-- A hash that can be stored is stored in some run whose answer is lost. -/
theorem setPassword_late (hp : ∀ e, p e = true) {m : Manager} (w : World) {hash : String}
    (h : Storable u b hash) {password : String} (hb : b.password = some password) :
    ∃ err, (m.setPassword u password).Returns (exec.under p) w (.error err)
      (passwordStored w u hash) := by
  obtain ⟨password', salt, hb', hlocal, hvalid, hmade⟩ := h
  obtain rfl := Option.some.inj (hb.symm.trans hb')
  have hhash := hashPassword_goes (w := w) (p := p) (fun e _ => hp e) password salt
  rw [hmade] at hhash
  refine ⟨.driver "connection reset", ?_⟩
  unfold Manager.setPassword
  refine returns_bind_any.mpr (.inl ⟨(), w, ?_, ?_⟩)
  · exact returns_failIf.mpr ⟨not_not.mpr hlocal, rfl⟩
  · refine returns_bind_any.mpr (.inl ⟨(), w, ?_, ?_⟩)
    · rw [hvalid]
      exact returns_ofExcept_any.mpr ⟨rfl, rfl⟩
    · refine returns_bind_any.mpr (.inl ⟨hash, w, hhash, ?_⟩)
      exact returns_bind_any.mpr (.inr ⟨_, rfl, db_late hp _⟩)

/-- **What the change of the password can come to.** -/
theorem patchPassword_returns {r : Except ApiError Unit}
    (h : (s.patchPassword u b.password).Returns (exec.under p) w r w') :
    (w' = w ∧ (Calm p → r = .ok () ∨ PasswordRefused u b)) ∨
      ∃ hash, Storable u b hash ∧ (w' = w ∨ w' = passwordStored w u hash) ∧
        (Calm p → r = .ok ()) := by
  cases hb : b.password with
  | none =>
    rw [hb] at h
    obtain ⟨rfl, rfl⟩ := returns_pure_any.mp h
    exact .inl ⟨rfl, fun _ => .inl rfl⟩
  | some password =>
    rw [hb] at h
    obtain ⟨r', hr', rfl⟩ := returns_mapError_any.mp h
    rcases setPassword_returns hb hr' with ⟨rfl, hrefused⟩ | ⟨hash, hstorable, hw, hok⟩
    · exact .inl ⟨rfl, fun hp => .inr (hrefused hp)⟩
    · refine .inr ⟨hash, hstorable, hw, fun hp => ?_⟩
      rw [hok hp]
      rfl

theorem patchPassword_refuses (hp : AdmitsCalm p) (s : Server) (w : World)
    (h : PasswordRefused u b) :
    ∃ err, (s.patchPassword u b.password).Returns (exec.under p) w (.error err) w := by
  obtain ⟨password, hb, -⟩ := id h
  obtain ⟨err, herr⟩ := setPassword_refuses (m := s.auth) hp w h hb
  rw [hb]
  exact ⟨_, returns_mapError_any.mpr ⟨_, herr, rfl⟩⟩

theorem patchPassword_late (hp : ∀ e, p e = true) (s : Server) (w : World) {hash : String}
    (h : Storable u b hash) : ∃ err, (s.patchPassword u b.password).Returns (exec.under p) w
      (.error err) (passwordStored w u hash) := by
  obtain ⟨password, -, hb, -⟩ := id h
  obtain ⟨err, herr⟩ := setPassword_late (m := s.auth) hp w h hb
  rw [hb]
  exact ⟨_, returns_mapError_any.mpr ⟨_, herr, rfl⟩⟩

end Stages

/-! ## The request -/

section Request

variable [Bcrypt] {p : Env → Bool} {w w' : World} {u : User} {b : UserPatch} {s : Server}
  {r : Request} {caller : User}

/-- `apiUserPatch` once its target and its body are known. -/
def Server.patchTarget (s : Server) (u : User) (b : UserPatch) (r : Request) (caller : User) :
    ApiHandler := do
  patchRole u b.role
  patchDisabled u b.disabled
  s.patchPassword u b.password
  let updated ← api (getUser u.id)
  audit caller.username "user.update" updated.username "" r.clientIP
  pure (.user updated)

/-- What finds the target of a request leaves everything as it is. -/
theorem pathUser_reads {ref : String} {out : Except ApiError User}
    (h : (pathUser ref).Returns (exec.under p) w out w') : w' = w := by
  have hbyName {out : Except ApiError User} {v v' : World}
      (h : (api (getUserByName ref)).Returns (exec.under p) v out v') : v' = v := by
    obtain ⟨_, h, -⟩ := returns_mapError_any.mp h
    obtain ⟨_, h, -⟩ := returns_mapResult.mp h
    exact db_reads (fun _ => rfl) h
  unfold pathUser at h
  rcases returns_bind_any.mp h with ⟨_, v, hcheck, hrest⟩ | ⟨e, -, he⟩
  · obtain rfl := returns_failIf_world hcheck
    cases hnumber : pathNumber ref with
    | none =>
      rw [hnumber] at hrest
      exact hbyName hrest
    | some id =>
      rw [hnumber] at hrest
      obtain ⟨found, v, hfound, hrest⟩ := returns_attempt_bind.mp hrest
      obtain ⟨_, hfound, -⟩ := returns_mapResult.mp hfound
      obtain rfl := db_reads (fun _ => rfl) hfound
      cases found with
      | ok u => exact (returns_pure_any.mp hrest).2.symm
      | error e => exact hbyName hrest
  · exact (returns_failIf_world he).symm

/-- The target of a request is an account. -/
theorem row_of_resolves {ref : String} (h : Resolves p w ref u) : w.users.get? u.id = some u := by
  have hbyName {v v' : World} (h : (api (getUserByName ref)).Returns (exec.under p) v (.ok u) v') :
      v.users.get? u.id = some u := by
    obtain ⟨found, h, heq⟩ := returns_mapResult.mp (returns_mapError.mp h)
    obtain ⟨pick, -, rfl | ⟨err, rfl⟩⟩ | ⟨-, err, rfl⟩ := db_cases h
    · cases hpick : Store.pickRow pick (v.users.rows.filter (User.named ref)) with
      | none =>
        rw [World.exec, hpick] at heq
        cases heq
      | some row =>
        rw [World.exec, hpick] at heq
        cases heq
        have hmem := List.mem_of_getElem? hpick
        exact Table.get?_of_mem (List.mem_filter.mp hmem).1
    · cases heq
    · cases heq
  unfold Resolves pathUser at h
  obtain ⟨_, v, hcheck, hrest⟩ := returns_bind.mp h
  obtain rfl := returns_failIf_world hcheck
  cases hnumber : pathNumber ref with
  | none =>
    rw [hnumber] at hrest
    exact hbyName hrest
  | some id =>
    rw [hnumber] at hrest
    obtain ⟨found, v, hfound, hrest⟩ := returns_attempt_bind.mp hrest
    obtain ⟨answer, hselect, heq⟩ := returns_mapResult.mp hfound
    obtain rfl := db_reads (fun _ => rfl) hselect
    cases found with
    | error e => exact hbyName hrest
    | ok found =>
      obtain ⟨rfl, -⟩ := returns_pure.mp hrest
      obtain ⟨pick, -, rfl | ⟨err, rfl⟩⟩ | ⟨-, err, rfl⟩ := db_cases hselect
      · cases hrow : v.users.get? id with
        | none =>
          rw [World.exec, hrow] at heq
          cases heq
        | some row =>
          rw [World.exec, hrow] at heq
          cases heq
          exact Table.get?_of_mem (Table.mem_of_get? hrow)
      · cases heq
      · cases heq

/-- Where a request fails: before it has a target, or at its changes. -/
theorem apiUserPatch_error {ref : String} {body : Except String UserPatch} {err : ApiError}
    (h : (s.apiUserPatch ref body r caller).Returns (exec.under p) w (.error err) w') :
    w' = w ∨ ∃ b u, body = .ok b ∧ Resolves p w ref u ∧
      (s.patchTarget u b r caller).Returns (exec.under p) w (.error err) w' := by
  unfold Server.apiUserPatch at h
  rcases returns_bind_any.mp h with ⟨u, v, hu, hrest⟩ | ⟨e, -, he⟩
  · obtain rfl := pathUser_reads hu
    rcases returns_bind_any.mp hrest with ⟨b, v', hb, hchanges⟩ | ⟨e, -, he⟩
    · obtain ⟨hbody, rfl⟩ := returns_ofExcept.mp hb
      cases body with
      | error text => cases hbody
      | ok _ =>
        cases hbody
        exact .inr ⟨b, u, rfl, hu, hchanges⟩
    · exact .inl (returns_ofExcept_any.mp he).2.symm
  · exact .inl (pathUser_reads he)

/-- A request that has a target ends as its changes do. -/
theorem apiUserPatch_of_target {ref : String} (hu : Resolves p w ref u)
    {out : Except ApiError Reply}
    (h : (s.patchTarget u b r caller).Returns (exec.under p) w out w') :
    (s.apiUserPatch ref (.ok b) r caller).Returns (exec.under p) w out w' :=
  returns_bind_any.mpr (.inl ⟨u, w, hu,
    returns_bind_any.mpr (.inl ⟨b, w, returns_ofExcept.mpr ⟨rfl, rfl⟩, h⟩)⟩)

/-- Reading an account back changes nothing, and without a failing statement it fails only where the
account is gone. -/
theorem getUser_fails {id : Nat} {e : ApiError}
    (h : (api (getUser id)).Returns (exec.under p) w (.error e) w') :
    w' = w ∧ (Calm p → w.users.get? id = none) := by
  obtain ⟨found, hget, hfailed⟩ := returns_mapError_any.mp h
  obtain ⟨answer, hselect, rfl⟩ := returns_mapResult.mp hget
  refine ⟨db_reads (fun _ => rfl) hselect, fun hcalm => ?_⟩
  obtain ⟨pick, rfl, -⟩ := db_of_calm hcalm hselect
  cases hrow : w.users.get? id with
  | none => rfl
  | some u =>
    rw [World.exec, hrow] at hfailed
    cases hfailed

/-- Where the changes of a request fail: at one of them, or when the account is read back. -/
theorem patchTarget_error {err : ApiError}
    (h : (s.patchTarget u b r caller).Returns (exec.under p) w (.error err) w') :
    (patchRole u b.role).Returns (exec.under p) w (.error err) w' ∨
      ∃ w₁, (patchRole u b.role).Returns (exec.under p) w (.ok ()) w₁ ∧
        ((patchDisabled u b.disabled).Returns (exec.under p) w₁ (.error err) w' ∨
          ∃ w₂, (patchDisabled u b.disabled).Returns (exec.under p) w₁ (.ok ()) w₂ ∧
            ((s.patchPassword u b.password).Returns (exec.under p) w₂ (.error err) w' ∨
              (s.patchPassword u b.password).Returns (exec.under p) w₂ (.ok ()) w' ∧
                (Calm p → w'.users.get? u.id = none))) := by
  unfold Server.patchTarget at h
  rcases returns_bind_any.mp h with ⟨_, w₁, hrole, h₁⟩ | ⟨e, heq, he⟩
  · refine .inr ⟨w₁, hrole, ?_⟩
    rcases returns_bind_any.mp h₁ with ⟨_, w₂, hdisabled, h₂⟩ | ⟨e, heq, he⟩
    · refine .inr ⟨w₂, hdisabled, ?_⟩
      rcases returns_bind_any.mp h₂ with ⟨_, w₃, hpassword, h₃⟩ | ⟨e, heq, he⟩
      · refine .inr ?_
        rcases returns_bind_any.mp h₃ with ⟨updated, w₄, hread, h₄⟩ | ⟨e, heq, he⟩
        · rcases returns_bind_any.mp h₄ with ⟨_, w₅, haudit, h₅⟩ | ⟨e, heq, he⟩
          · cases (returns_pure_any.mp h₅).1
          · obtain ⟨-, _, -, heq⟩ := host_returns.mp he
            cases heq
        · obtain ⟨rfl, hnone⟩ := getUser_fails he
          exact ⟨hpassword, hnone⟩
      · cases heq
        exact .inl he
    · cases heq
      exact .inl he
  · cases heq
    exact .inl he

/-! ### The row of the target -/

/-- The role that a request leaves an account with. -/
def roleAfter (u : User) (b : UserPatch) : String := (b.role.map asRole).getD u.role

/-- The disabled mark that a request leaves an account with. -/
def disabledAfter (u : User) (b : UserPatch) : Bool := b.disabled.getD u.disabled

omit [Bcrypt] in
theorem changesRole_iff : ChangesRole u b ↔ roleAfter u b ≠ u.role := by
  unfold ChangesRole roleAfter
  cases b.role with
  | none => simp
  | some role => simp

omit [Bcrypt] in
theorem changesDisabled_iff : ChangesDisabled u b ↔ disabledAfter u b ≠ u.disabled := by
  unfold ChangesDisabled disabledAfter
  cases b.disabled with
  | none => simp
  | some disabled => simp

omit [Bcrypt] in
theorem row_updateUsers {v : User} {id : Nat} (h : w.users.get? id = some v) (f : User → User)
    (hf : ∀ u, (f u).id = u.id) : (w.updateUsers id f hf).users.get? id = some (f v) := by
  rw [get?_updateUsers_self, h, Option.map_some]

omit [Bcrypt] in
theorem row_role {v : User} (h : w.users.get? u.id = some v) :
    (roleStored w u b).users.get? u.id = some { v with role := roleAfter v b } := by
  unfold roleStored roleAfter
  cases b.role with
  | none => exact h
  | some role => exact row_updateUsers h (fun u => { u with role := asRole role }) fun _ => rfl

omit [Bcrypt] in
theorem row_disabled {v : User} (h : w.users.get? u.id = some v) :
    (disabledStored w u b).users.get? u.id = some { v with disabled := disabledAfter v b } := by
  unfold disabledStored disabledAfter
  cases b.disabled with
  | none => exact h
  | some disabled => exact row_updateUsers h (fun u => { u with disabled }) fun _ => rfl

omit [Bcrypt] in
theorem row_password {v : User} (h : w.users.get? u.id = some v) (hash : String) :
    (passwordStored w u hash).users.get? u.id = some { v with passHash := hash } :=
  row_updateUsers h (fun u => { u with passHash := hash }) fun _ => rfl

omit [Bcrypt] in
/-- Two databases in which nothing changed have the same access of an account. -/
theorem SameAccess.access_eq {v v' : User} (h : SameAccess w w') {id : Nat}
    (hv : w.users.get? id = some v) (hv' : w'.users.get? id = some v') : access v' = access v := by
  have hrow := h.row id
  rw [hv, hv'] at hrow
  exact Option.some.inj hrow

omit [Bcrypt] in
/-- An update that leaves the access of its account as it was. -/
theorem sameAccess_updateUsers {v : User} {id : Nat} {f : User → User} {hf : ∀ u, (f u).id = u.id}
    (hrow : w.users.get? id = some v) (h : access (f v) = access v) :
    SameAccess w (w.updateUsers id f hf) := by
  refine sameAccess_update hf (fun r hr hid => ?_) rfl
  have hget : w.users.get? id = some r := by
    rw [← beq_iff_eq.mp hid]
    exact Table.get?_of_mem hr
  obtain rfl := Option.some.inj (hrow.symm.trans hget)
  exact h

omit [Bcrypt] in
theorem sameAccess_role {v : User} (hrow : w.users.get? u.id = some v)
    (h : roleAfter v b = v.role) : SameAccess w (roleStored w u b) := by
  unfold roleStored
  unfold roleAfter at h
  cases hb : b.role with
  | none => exact .refl w
  | some role =>
    rw [hb] at h
    refine sameAccess_updateUsers (f := fun u => { u with role := asRole role }) hrow ?_
    unfold access
    rw [show asRole role = v.role from h]

omit [Bcrypt] in
theorem sameAccess_disabled {v : User} (hrow : w.users.get? u.id = some v)
    (h : disabledAfter v b = v.disabled) : SameAccess w (disabledStored w u b) := by
  unfold disabledStored
  unfold disabledAfter at h
  cases hb : b.disabled with
  | none => exact .refl w
  | some disabled =>
    rw [hb] at h
    refine sameAccess_updateUsers (f := fun u => { u with disabled }) hrow ?_
    unfold access
    rw [show disabled = v.disabled from h]

/-! ### Without a failing statement -/

/-- A request that is refused first leaves the accounts as they were. -/
theorem refusesFirst_keeps (hrow : w.users.get? u.id = some u) (h : RefusesFirst w u b)
    {err : ApiError}
    (hrun : (s.patchTarget u b r caller).Returns (exec.under unfailing) w (.error err) w') :
    SameAccess w w' := by
  have hcalm := calm_unfailing
  have hp := admitsCalm_unfailing
  rcases patchTarget_error hrun with hrole | ⟨w₁, hrole, hrest⟩
  · exact sameAccess_of_users ((stage_role hp w u b).calm hcalm _ _ hrole).2
  · obtain ⟨-, _, herr⟩ | ⟨hnot, hw₁⟩ := (stage_role hp w u b).ran _ _ hrole
    · cases herr
    obtain ⟨hdisable, hpassword⟩ := h.resolve_left hnot
    have hsame (hno : ¬ ChangesRole u b) : SameAccess w w₁ := by
      rw [changesRole_iff, ne_eq, not_not] at hno
      exact (sameAccess_role hrow hno).trans (sameAccess_of_users hw₁)
    have hrefused : DisableRefused w₁ u b ↔ DisableRefused (roleStored w u b) u b :=
      and_congr_right fun _ => lastAdmin_congr hw₁
    have hrow₁ := row_role (b := b) hrow
    rw [← hw₁] at hrow₁
    rcases hrest with hdisabled | ⟨w₂, hdisabled, hrest⟩
    · obtain ⟨hyes, hw'⟩ := (stage_disabled hp w₁ u b).calm hcalm _ _ hdisabled
      exact (hsame fun hno => hdisable hno (hrefused.mp hyes)).trans (sameAccess_of_users hw')
    · obtain ⟨-, _, herr⟩ | ⟨hgo, hw₂⟩ := (stage_disabled hp w₁ u b).ran _ _ hdisabled
      · cases herr
      have hrow₂ := row_disabled (b := b) hrow₁
      rw [← hw₂] at hrow₂
      have hkept (hyes : PasswordRefused u b) : SameAccess w w₂ := by
        have hno : ¬ (ChangesRole u b ∨ ChangesDisabled u b) := fun hchanges =>
          hpassword hchanges (mt hrefused.mpr hgo) hyes
        rw [not_or, changesDisabled_iff, ne_eq, not_not] at hno
        exact (hsame hno.1).trans
          ((sameAccess_disabled hrow₁ hno.2).trans (sameAccess_of_users hw₂))
      rcases hrest with hfailed | ⟨hdone, hgone⟩
      · rcases patchPassword_returns hfailed with ⟨rfl, hanswer⟩ | ⟨hash, -, -, hok⟩
        · rcases hanswer hcalm with herr | hyes
          · cases herr
          · exact hkept hyes
        · cases hok hcalm
      · rcases patchPassword_returns hdone with ⟨rfl, -⟩ | ⟨hash, -, rfl | rfl, -⟩
        · rw [hgone hcalm] at hrow₂
          cases hrow₂
        · rw [hgone hcalm] at hrow₂
          cases hrow₂
        · have hrow₃ := row_password hrow₂ hash
          rw [hgone hcalm] at hrow₃
          cases hrow₃

/-- A request that always leaves the accounts as they were is refused first. -/
theorem refusesFirst_of_keeps (hrow : w.users.get? u.id = some u)
    (hall : ∀ err w', (s.patchTarget u b r caller).Returns (exec.under unfailing) w
      (.error err) w' → SameAccess w w') : RefusesFirst w u b := by
  have hp := admitsCalm_unfailing
  by_cases hnot : RoleRefused w u b
  · exact .inl hnot
  obtain ⟨w₁, hrole, hw₁⟩ := (stage_role hp w u b).goes hnot
  have hrefused : DisableRefused w₁ u b ↔ DisableRefused (roleStored w u b) u b :=
    and_congr_right fun _ => lastAdmin_congr hw₁
  have hrow₁ := row_role (b := b) hrow
  rw [← hw₁] at hrow₁
  refine .inr ⟨fun hchanges hyes => ?_, fun hchanges hno hyes => ?_⟩
  · obtain ⟨err, herr⟩ := (stage_disabled hp w₁ u b).refuses (hrefused.mpr hyes)
    have hsame := hall err w₁ (returns_bind_any.mpr (.inl ⟨(), w₁, hrole,
      returns_bind_any.mpr (.inr ⟨err, rfl, herr⟩)⟩))
    have heq := hsame.access_eq hrow hrow₁
    exact changesRole_iff.mp hchanges (congrArg (·.2.1) heq)
  · obtain ⟨w₂, hdisabled, hw₂⟩ := (stage_disabled hp w₁ u b).goes (mt hrefused.mp hno)
    have hrow₂ := row_disabled (b := b) hrow₁
    rw [← hw₂] at hrow₂
    obtain ⟨err, herr⟩ := patchPassword_refuses hp s w₂ hyes
    have hsame := hall err w₂ (returns_bind_any.mpr (.inl ⟨(), w₁, hrole,
      returns_bind_any.mpr (.inl ⟨(), w₂, hdisabled,
        returns_bind_any.mpr (.inr ⟨err, rfl, herr⟩)⟩)⟩))
    have heq := hsame.access_eq hrow hrow₂
    rcases hchanges with hchanges | hchanges
    · exact changesRole_iff.mp hchanges (congrArg (·.2.1) heq)
    · exact changesDisabled_iff.mp hchanges (congrArg (·.2.2.1) heq)

/-! ### With statements that may fail -/

/-- A request that changes nothing leaves the accounts as they were. -/
theorem idle_keeps (hrow : w.users.get? u.id = some u) (h : Idle w u b) {err : ApiError}
    (hrun : (s.patchTarget u b r caller).Returns (exec.under fun _ => true) w (.error err) w') :
    SameAccess w w' := by
  have hp := admitsCalm_all
  have hafter (hnot : ¬ RoleRefused w u b) : SameAccess w (roleStored w u b) := by
    have hno := (h.resolve_left hnot).1
    rw [changesRole_iff, ne_eq, not_not] at hno
    exact sameAccess_role hrow hno
  rcases patchTarget_error hrun with hrole | ⟨w₁, hrole, hrest⟩
  · obtain ⟨hw', -⟩ | ⟨hnot, hw'⟩ := (stage_role hp w u b).ran _ _ hrole
    · exact sameAccess_of_users hw'
    · exact (hafter hnot).trans (sameAccess_of_users hw')
  · obtain ⟨-, _, herr⟩ | ⟨hnot, hw₁⟩ := (stage_role hp w u b).ran _ _ hrole
    · cases herr
    have hsame₁ := (hafter hnot).trans (sameAccess_of_users hw₁)
    have hrow₁ := row_role (b := b) hrow
    rw [← hw₁] at hrow₁
    have hidle := (h.resolve_left hnot).2
    have hstill (hgo : ¬ DisableRefused w₁ u b) : ¬ ChangesDisabled u b ∧ ¬ ChangesPassword u b :=
      hidle.resolve_left fun hyes => hgo ⟨hyes.1, hsame₁.lastAdmin.mpr hyes.2⟩
    have hafter₁ (hgo : ¬ DisableRefused w₁ u b) : SameAccess w₁ (disabledStored w₁ u b) := by
      have hno := (hstill hgo).1
      rw [changesDisabled_iff, ne_eq, not_not] at hno
      exact sameAccess_disabled hrow₁ hno
    rcases hrest with hdisabled | ⟨w₂, hdisabled, hrest⟩
    · obtain ⟨hw', -⟩ | ⟨hgo, hw'⟩ := (stage_disabled hp w₁ u b).ran _ _ hdisabled
      · exact hsame₁.trans (sameAccess_of_users hw')
      · exact hsame₁.trans ((hafter₁ hgo).trans (sameAccess_of_users hw'))
    · obtain ⟨-, _, herr⟩ | ⟨hgo, hw₂⟩ := (stage_disabled hp w₁ u b).ran _ _ hdisabled
      · cases herr
      have hsame₂ := hsame₁.trans ((hafter₁ hgo).trans (sameAccess_of_users hw₂))
      have hrow₂ := row_disabled (b := b) hrow₁
      rw [← hw₂] at hrow₂
      have hpassword {out : Except ApiError Unit}
          (hout : (s.patchPassword u b.password).Returns (exec.under fun _ => true) w₂ out w') :
          SameAccess w w' := by
        rcases patchPassword_returns hout with ⟨rfl, -⟩ | ⟨hash, hstorable, rfl | rfl, -⟩
        · exact hsame₂
        · exact hsame₂
        · obtain ⟨password, salt, hb, hlocal, hvalid, hmade⟩ := hstorable
          have hhash : hash = u.passHash := by
            by_contra hne
            exact (hstill hgo).2 ⟨password, hb, hlocal, hvalid, salt, hash, hmade, hne⟩
          refine hsame₂.trans (sameAccess_updateUsers
            (f := fun u => { u with passHash := hash }) hrow₂ ?_)
          rw [hhash]
      rcases hrest with hfailed | ⟨hdone, -⟩
      · exact hpassword hfailed
      · exact hpassword hdone

/-- A request that always leaves the accounts as they were changes nothing. -/
theorem idle_of_keeps (hrow : w.users.get? u.id = some u)
    (hall : ∀ err w', (s.patchTarget u b r caller).Returns (exec.under fun _ => true) w
      (.error err) w' → SameAccess w w') : Idle w u b := by
  have hp := admitsCalm_all
  by_cases hnot : RoleRefused w u b
  · exact .inl hnot
  have hrow' := row_role (b := b) hrow
  have hunchanged : ¬ ChangesRole u b := by
    intro hchanges
    have hne : (roleStored w u b).users ≠ w.users := by
      intro heq
      have haccess := (sameAccess_of_users heq).access_eq hrow hrow'
      exact changesRole_iff.mp hchanges (congrArg (·.2.1) haccess)
    obtain ⟨err, w', hlate, hw'⟩ := (stage_role hp w u b).late (fun _ => rfl) hnot hne
    rw [← hw'] at hrow'
    have hsame := hall err w' (returns_bind_any.mpr (.inr ⟨err, rfl, hlate⟩))
    exact changesRole_iff.mp hchanges (congrArg (·.2.1) (hsame.access_eq hrow hrow'))
  obtain ⟨w₁, hrole, hw₁⟩ := (stage_role hp w u b).goes hnot
  have hsame₁ : SameAccess w w₁ := by
    rw [changesRole_iff, ne_eq, not_not] at hunchanged
    exact (sameAccess_role hrow hunchanged).trans (sameAccess_of_users hw₁)
  rw [← hw₁] at hrow'
  refine .inr ⟨hunchanged, ?_⟩
  by_cases hrefused : DisableRefused w u b
  · exact .inl hrefused
  have hgo : ¬ DisableRefused w₁ u b := fun hyes => hrefused ⟨hyes.1, hsame₁.lastAdmin.mp hyes.2⟩
  have hrow₁ := row_disabled (b := b) hrow'
  have henabled : ¬ ChangesDisabled u b := by
    intro hchanges
    have hne : (disabledStored w₁ u b).users ≠ w₁.users := by
      intro heq
      have haccess := (sameAccess_of_users heq).access_eq hrow' hrow₁
      exact changesDisabled_iff.mp hchanges (congrArg (·.2.2.1) haccess)
    obtain ⟨err, w', hlate, hw'⟩ := (stage_disabled hp w₁ u b).late (fun _ => rfl) hgo hne
    rw [← hw'] at hrow₁
    have hsame := hall err w' (returns_bind_any.mpr (.inl ⟨(), w₁, hrole,
      returns_bind_any.mpr (.inr ⟨err, rfl, hlate⟩)⟩))
    exact changesDisabled_iff.mp hchanges (congrArg (·.2.2.1) (hsame.access_eq hrow hrow₁))
  obtain ⟨w₂, hdisabled, hw₂⟩ := (stage_disabled hp w₁ u b).goes hgo
  rw [← hw₂] at hrow₁
  refine .inr ⟨henabled, ?_⟩
  rintro ⟨password, hb, hlocal, hvalid, salt, hash, hmade, hne⟩
  obtain ⟨err, hlate⟩ := patchPassword_late (fun _ => rfl) s w₂
    (show Storable u b hash from ⟨password, salt, hb, hlocal, hvalid, hmade⟩)
  have hsame := hall err _ (returns_bind_any.mpr (.inl ⟨(), w₁, hrole,
    returns_bind_any.mpr (.inl ⟨(), w₂, hdisabled,
      returns_bind_any.mpr (.inr ⟨err, rfl, hlate⟩)⟩)⟩))
  have haccess := hsame.access_eq hrow (row_password hrow₁ hash)
  exact hne (congrArg (·.2.2.2) haccess)

/-! ### The law -/

/-- A request is all or nothing where its changes are, for whatever account it can lead to. -/
theorem allOrNothing_iff {ref : String} {body : Except String UserPatch} {p : Env → Bool}
    {good : User → UserPatch → Prop}
    (hgood : ∀ b u, w.users.get? u.id = some u → (good u b ↔ ∀ err w',
      (s.patchTarget u b r caller).Returns (exec.under p) w (.error err) w' → SameAccess w w')) :
    AllOrNothing p s ref body r caller w ↔
      ∀ b u, body = .ok b → Resolves p w ref u → good u b := by
  constructor
  · rintro hall b u rfl hu
    refine (hgood b u (row_of_resolves hu)).mpr fun err w' hrun => ?_
    exact hall err w' (apiUserPatch_of_target hu hrun)
  · intro hall err w' hrun
    rcases apiUserPatch_error hrun with rfl | ⟨b, u, hb, hu, hchanges⟩
    · exact .refl w'
    · exact (hgood b u (row_of_resolves hu)).mp (hall b u hb hu) err w' hchanges

/-- **A change of an account is all or nothing** exactly where, without a failing statement, nothing
that is refused comes after something that is changed, and with statements that may fail, where
nothing is changed. -/
theorem apiUserPatch_atomic (s : Server) (ref : String) (body : Except String UserPatch)
    (r : Request) (caller : User) (w : World) :
    (AllOrNothing unfailing s ref body r caller w ↔
      ∀ b u, body = .ok b → Resolves unfailing w ref u → RefusesFirst w u b) ∧
    (AllOrNothing (fun _ => true) s ref body r caller w ↔
      ∀ b u, body = .ok b → Resolves (fun _ => true) w ref u → Idle w u b) := by
  constructor
  · refine allOrNothing_iff fun b u hrow => ⟨fun h err w' hrun => ?_, fun hall => ?_⟩
    · exact refusesFirst_keeps hrow h hrun
    · exact refusesFirst_of_keeps hrow hall
  · refine allOrNothing_iff fun b u hrow => ⟨fun h err w' hrun => ?_, fun hall => ?_⟩
    · exact idle_keeps hrow h hrun
    · exact idle_of_keeps hrow hall

end Request

/-! ### A role that is stored with a password that is refused -/

section Sample

attribute [local instance] saltedBcrypt

/-- A database with one ordinary user. -/
def oneUser : World := { World.empty with
  users := Table.empty.insert (fun id => {
    id, username := "carol", source := .sourceLocal, role := roleUser }) fun _ => rfl }

/-- The administrator who asks. -/
def root : User := { username := "root", source := .sourceLocal, role := roleAdmin }

/-- A promotion together with a password that is too short. -/
def promotion : UserPatch := { role := some roleAdmin, password := some "short" }

/-- The promotion is stored, and the answer is an error. -/
theorem promotion_survives : ¬ ∀ s ref body r caller w,
    AllOrNothing unfailing s ref body r caller w := by
  intro hall
  have hrun : ((portal.apiUserPatch "carol" (.ok promotion) {} root).run.evalWith
      (exec.under unfailing) { now := 0 } oneUser).any (fun x => x.1.toOption.isNone &&
        x.2.users.rows.map access != oneUser.users.rows.map access) = true := by
    decide +kernel
  obtain ⟨⟨out, w'⟩, hx, hout⟩ := (Option.any_eq_true _ _).mp hrun
  rw [Bool.and_eq_true, bne_iff_ne] at hout
  cases out with
  | ok reply => cases hout.1
  | error err =>
    exact hout.2 (hall portal "carol" (.ok promotion) {} root oneUser err w'
      (Interleave.Prog.returns_of_evalWith hx))

end Sample

end Goca.Auth
