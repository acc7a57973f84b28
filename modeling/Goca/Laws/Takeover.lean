import Goca.Laws.Identities
import Goca.Laws.LastAdmin

/-!
# Sign-ins from outside and local accounts

Calls are made one after the other, and each of them may be cut off. An identity with the name of a
local account becomes that account: the row is marked as one of the directory, and its password is
no longer asked for.

`reached_apart` says that this is the only way. Where no identity has the name of a local account,
or the name that is reserved for the local administrator, no sign-in changes a local account or
comes in as one, and every local account still signs in with its own password.
-/

set_option autoImplicit false

namespace Goca.Auth

open Goca.Store (sqlLower)
open Interleave (Act Pool Prog Trace)
open Interleave.Act
open Sql (Table)

/-! ## Sequences of calls -/

/-- The account of the break-glass administrator: a local account and an administrator, with the
password of the configuration. -/
structure IsBreakGlass (la : LocalAdmin) (u : User) : Prop where
  named : User.named la.username u = true
  source : u.source = .sourceLocal
  role : u.role = roleAdmin
  hash : u.passHash = la.passwordHash

section

variable [Bcrypt] [Go.Runtime]

/-- A call that runs alone over a world, one statement for each environment, to its end or cut off
before. -/
def alone (w : World) (c : Call) (es : List Env) : Pool sig Reply World :=
  (serving w [c]).run exec (Pool.solo es)

/-- The databases that calls reach one after the other, each of which may be cut off. -/
inductive Reached (ok : World → Call → List Env → Prop) (w₀ : World) : World → Prop
  | start : Reached ok w₀ w₀
  | call {w : World} (h : Reached ok w₀ w) (c : Call) (es : List Env) (hc : ok w c es) :
    Reached ok w₀ (alone w c es).world

/-- A call that is told of identities apart from the local accounts. -/
def Apart (name : String) (w : World) (c : Call) (es : List Env) : Prop :=
  KeepsApart name w (Interleave.own 0 (alone w c es).history)

/-- As long as nothing fails, the sign-in of `username` with the password comes in as the local
account `id`. -/
def Accepts (m : Manager) (w : World) (username password : String) (id : Nat) : Prop :=
  ∀ e : Env, e.fault = .none → ∃ u w',
    (m.authenticate username password).run.evalWith exec e w = some (.ok u, w') ∧
      u.id = id ∧ u.source = .sourceLocal

/-- A password of a local account that is not disabled, and a spelling of its name. -/
structure OwnPassword (u : User) (username password : String) : Prop where
  source : u.source = .sourceLocal
  enabled : u.disabled = false
  spelled : User.named (Go.trimSpace username) u = true
  typed : Go.trimSpace username ≠ "" ∧ password ≠ ""
  hash : u.passHash ≠ "" ∧ Bcrypt.compare u.passHash password = true

/-- A sign-in that leaves the local accounts alone. -/
structure SafeLogin (w : World) (c : Call) (es : List Env) : Prop where
  /-- No local account changes, but for the time of its last sign-in. -/
  kept : ∀ id r, w.users.get? id = some r → r.source = .sourceLocal →
    ∃ t, (alone w c es).world.users.get? id = some { r with lastLogin := t }
  /-- Once the directory or the provider has answered, no session is one of a local account. -/
  sessions : ∀ q₁ x q₂ uid, Interleave.own 0 (alone w c es).history = q₁ ++ [x] ++ q₂ →
    signedInAs x = some uid → Identified q₁ → NotLocal w uid
  /-- A local account that is not disabled still signs in with its own password. -/
  admits : ∀ (m : Manager) username password, ∀ u ∈ w.users.rows, m.localEnabled = true →
    OwnPassword u username password → Accepts m (alone w c es).world username password u.id

/-- As long as nothing fails, the break-glass administrator is there after `EnsureLocalAdmin`, and
signs in with its own password unless it is disabled. -/
def BreakGlass (m : Manager) (la : LocalAdmin) (w : World) : Prop :=
  ∀ e : Env, e.fault = .none → ∃ w' u,
    (ensureLocalAdmin la).run.evalWith exec e w = some (.ok (), w') ∧ u ∈ w'.users.rows ∧
      IsBreakGlass la u ∧ ∀ username password, m.localEnabled = true →
        OwnPassword u username password → Accepts m w' username password u.id

end

/-! ## Without failures -/

section Faultless

variable [Bcrypt] {ε α : Type} {w : World} {q : Trace sig}

/-- An environment in which nothing fails. -/
abbrev Faultless (e : Env) : Prop := e.fault = .none

/-- Everything may be asked. -/
abbrev Anything : World → Trace sig → Stmt → Prop := fun _ _ _ => True

theorem db_faultless {s : DbStmt} {post : World → Trace sig → Except Go.Error s.Res → Prop}
    (hpost : ∀ pick, post (w.exec pick s).2 (q ++ [⟨.db s, (w.exec pick s).1⟩]) (w.exec pick s).1) :
    (db s).Alone exec Faultless Anything post w q := by
  refine ⟨trivial, ?_⟩
  intro e x w' he hx
  obtain ⟨hx, hw⟩ := exec_db hx
  rw [he] at hx hw
  subst hx
  subst hw
  exact hpost e.pick

theorem host_faultless {s : HostStmt} {post : World → Trace sig → Except ε s.Res → Prop}
    (hpost : ∀ e, e.fault = .none →
      post w (q ++ [⟨.host s, hostExec e s⟩]) (.ok (hostExec e s))) :
    (host s : Handler ε s.Res).Alone exec Faultless Anything post w q := by
  refine ⟨trivial, ?_⟩
  intro e x w' he hx
  obtain ⟨rfl, rfl⟩ := exec_host hx
  exact hpost e he

/-- A look-up by a name that no two accounts have. -/
theorem getUserByName_faultless {username : String}
    {post : World → Trace sig → Except Go.Error User → Prop}
    (hfound : ∀ q' u, u ∈ w.users.rows → User.named username u = true → post w q' (.ok u))
    (hnone : ∀ q', (∀ v ∈ w.users.rows, User.named username v = false) →
      post w q' (.error .notFound)) :
    (getUserByName username).Alone exec Faultless Anything post w q := by
  refine Alone.mapResult ⟨trivial, ?_⟩
  intro e x w' he hx
  obtain ⟨rfl, hlooked⟩ := exec_selectUserByName hx
  obtain ⟨hx, _⟩ := exec_db hx
  rw [he] at hx
  cases x with
  | error err => cases hx
  | ok found =>
    cases found with
    | none => exact hnone _ hlooked
    | some u => exact hfound _ u hlooked.1 hlooked.2

/-- The time of a sign-in changes nothing that is looked at here. -/
theorem touchLogin_faultless (id : Nat) :
    (touchLogin id).Alone exec Faultless Anything (fun _ _ _ => True) w q := by
  refine Alone.bind (m := fun _ _ _ => True) (host_faultless fun _ _ => trivial) ?_
    fun _ _ _ _ => trivial
  intro w' q' t _
  exact db_faultless fun _ => trivial

/-- **A local account signs in with its own password**, where no other one has its name. -/
theorem accepts_of_only {m : Manager} {username password : String} {u : User}
    (honly : ∀ v ∈ w.users.rows, User.named (Go.trimSpace username) v = true → v = u)
    (hu : u ∈ w.users.rows) (hm : m.localEnabled = true)
    (hown : OwnPassword u username password) : Accepts m w username password u.id := by
  intro e he
  have halone : (m.authenticate username password).Alone exec Faultless Anything
      (fun _ _ r => r = .ok u) w [] := by
    refine alone_failIf_bind (fun _ => ?_) ?_
    · refine Alone.bind (m := fun _ _ r => r = .ok (some u)) ?_ ?_ ?_
      · show (if m.localEnabled = true then _ else pure none :
          Handler Go.Error (Option User)).Alone _ _ _ _ _ _
        rw [if_pos hm]
        refine alone_attempt_bind (m := fun _ _ r => r = .ok u) ?_ ?_
        · refine getUserByName_faultless ?_ ?_
          · intro q' v hv hnamed
            rw [honly v hv hnamed]
          · intro q' hnone
            exact absurd ((hnone u hu).symm.trans hown.spelled) Bool.false_ne_true
        · rintro w' q' r rfl
          refine alone_pure ?_
          show Except.ok (Option.filter _ (some u)) = _
          rw [Option.filter_some, if_pos]
          rw [hown.source, Bool.and_eq_true, bne_iff_ne]
          exact ⟨rfl, hown.hash.1⟩
      · intro w' q' r hr
        cases hr
        refine alone_failIf_bind (fun _ => ?_) fun hdisabled => ?_
        · refine Alone.bind (m := fun _ _ r => r = .ok true) (host_faultless fun _ _ => ?_) ?_ ?_
          · show Except.ok (Bcrypt.compare u.passHash password) = _
            rw [hown.hash.2]
          · intro w₁ q₁ r hr
            cases hr
            refine alone_failIf_bind (fun _ => ?_) fun hno => absurd hno Bool.false_ne_true.symm
            refine alone_attempt_bind (touchLogin_faultless u.id) ?_
            intro w₂ q₂ _ _
            exact alone_pure rfl
          · intro _ _ _ h
            cases h
        · rw [hown.enabled] at hdisabled
          cases hdisabled
      · intro _ _ _ h
        cases h
    · rintro (h | h)
      · exact absurd h hown.typed.1
      · exact absurd h hown.typed.2
  obtain ⟨⟨r, w'⟩, hr⟩ := Prog.evalWith_total (e := e)
    (fun w s => let ⟨x, w', h⟩ := exec_total e w s; ⟨(x, w'), h⟩)
    (m.authenticate username password).run w
  obtain ⟨_, rfl⟩ := Prog.Alone.evalWith halone he hr
  exact ⟨u, w', hr, rfl, hown.source⟩

theorem accepts_of_row {m : Manager} {username password : String} {u : User}
    (hunique : UniqueNames w) (hu : u ∈ w.users.rows) (hm : m.localEnabled = true)
    (hown : OwnPassword u username password) : Accepts m w username password u.id := by
  refine accepts_of_only ?_ hu hm hown
  intro v hv hnamed
  exact hunique v hv u hu ((named_iff.mp hnamed).trans (named_iff.mp hown.spelled).symm)

/-! ## The break-glass administrator -/

/-- Where nobody has the name, the administrator is made. -/
theorem upsertAdmin_faultless {la : LocalAdmin} (hnew : ∀ v ∈ w.users.rows,
    User.named la.username v = false) {u : User} (hu : IsBreakGlass la u)
    (hname : u.username = la.username) :
    (upsertUser u).Alone exec Faultless Anything
      (fun w' _ r => (∃ v, r = .ok v) ∧ ∃ v ∈ w'.users.rows, IsBreakGlass la v) w q := by
  refine alone_attempt_bind (m := fun w' _ r => (∃ v, r = .ok v) ∧
    ∃ v ∈ w'.users.rows, IsBreakGlass la v) ?_ ?_
  · refine alone_attempt_bind (m := fun w' _ r => w' = w ∧ r = .error .notFound) ?_ ?_
    · rw [hname]
      refine getUserByName_faultless ?_ fun _ _ => ⟨rfl, rfl⟩
      intro q' v hv hnamed
      exact absurd ((hnew v hv).symm.trans hnamed) Bool.false_ne_true
    · rintro w₁ q₁ r ⟨rfl, rfl⟩
      refine Alone.bind (m := fun w' _ r => ∃ id, r = .ok id ∧
        ∃ v, w'.users.get? id = some v ∧ IsBreakGlass la v) (db_faultless fun pick => ?_) ?_ ?_
      · have hfree : (w₁.users.rows.any (·.username == u.username)) = false := by
          rw [List.any_eq_false]
          intro v hv hsame
          have hnamed : User.named la.username v = true := by
            rw [named_iff, beq_iff_eq.mp hsame, hname]
          exact absurd ((hnew v hv).symm.trans hnamed) Bool.false_ne_true
        simp only [World.exec]
        rw [if_neg (by rw [hfree]; exact Bool.false_ne_true)]
        refine ⟨_, rfl, _, by rw [Table.get?_insert, if_pos rfl], ?_⟩
        have hrole : Store.nz u.role roleUser = roleAdmin := by
          rw [hu.role]
          rfl
        exact ⟨hu.named, hu.source, hrole, hu.hash⟩
      · rintro w₂ q₂ id ⟨id', hid, v, hv, hglass⟩
        cases hid
        refine Alone.mapResult (db_faultless fun pick => ?_)
        show (∃ v', Store.row (.ok (w₂.users.get? id)) = .ok v') ∧ _
        rw [hv]
        exact ⟨⟨v, rfl⟩, v, Table.mem_of_get? hv, hglass⟩
      · rintro _ _ _ ⟨_, h, _⟩
        cases h
  · rintro w₁ q₁ r ⟨⟨v, rfl⟩, hglass⟩
    exact alone_pure ⟨⟨v, rfl⟩, hglass⟩

/-- The hash and the role of an account that is there are set where they differ. -/
theorem refreshAdmin_faultless {la : LocalAdmin} {u : User} (hrow : w.users.get? u.id = some u)
    (hnamed : User.named la.username u = true) (hsource : u.source = .sourceLocal) :
    (do
      (if u.passHash ≠ la.passwordHash then setUserPassword u.id la.passwordHash else pure ())
      (if u.role ≠ roleAdmin then setUserRole u.id roleAdmin else pure ()) :
      Handler Go.Error Unit).Alone exec Faultless Anything
      (fun w' _ r => r = .ok () ∧ ∃ v ∈ w'.users.rows, IsBreakGlass la v) w q := by
  refine Alone.bind (m := fun w' _ r => r = .ok () ∧
    w'.users.get? u.id = some { u with passHash := la.passwordHash }) ?_ ?_ ?_
  · by_cases hhash : u.passHash ≠ la.passwordHash
    · rw [if_pos hhash]
      refine db_faultless fun pick => ⟨rfl, ?_⟩
      show (w.updateUsers u.id _ _).users.get? u.id = _
      rw [get?_updateUsers_self, hrow]
      rfl
    · rw [if_neg hhash]
      refine alone_pure ⟨rfl, ?_⟩
      rw [hrow, ← not_not.mp hhash]
  · rintro w₁ q₁ _ ⟨_, hget⟩
    by_cases hrole : u.role ≠ roleAdmin
    · rw [if_pos hrole]
      refine db_faultless fun pick => ⟨rfl,
        { u with passHash := la.passwordHash, role := roleAdmin }, ?_, hnamed, hsource, rfl, rfl⟩
      refine Table.mem_of_get? (i := u.id) ?_
      show (w₁.updateUsers u.id _ _).users.get? u.id = _
      rw [get?_updateUsers_self, hget]
      rfl
    · rw [if_neg hrole]
      exact alone_pure ⟨rfl, _, Table.mem_of_get? hget, hnamed, hsource, not_not.mp hrole, rfl⟩
  · rintro _ _ _ ⟨h, _⟩
    cases h

/-- **`EnsureLocalAdmin`** leaves the administrator of the configuration. -/
theorem ensureLocalAdmin_faultless {la : LocalAdmin} (hconfigured : la.username ≠ "")
    (hhash : la.passwordHash ≠ "") (hreserved : Reserved la.username w) :
    (ensureLocalAdmin la).Alone exec Faultless Anything
      (fun w' _ r => r = .ok () ∧ ∃ v ∈ w'.users.rows, IsBreakGlass la v) w q := by
  show (if la.username = "" ∨ la.passwordHash = "" then pure () else _ :
    Handler Go.Error Unit).Alone _ _ _ _ _ _
  rw [if_neg (not_or.mpr ⟨hconfigured, hhash⟩)]
  refine alone_attempt_bind (m := fun w' _ r => w' = w ∧
    ((∃ u ∈ w.users.rows, User.named la.username u = true ∧ r = .ok u) ∨
      (∀ v ∈ w.users.rows, User.named la.username v = false) ∧ r = .error .notFound)) ?_ ?_
  · refine getUserByName_faultless ?_ ?_
    · intro q' u hu hnamed
      exact ⟨rfl, .inl ⟨u, hu, hnamed, rfl⟩⟩
    · intro q' hnone
      exact ⟨rfl, .inr ⟨hnone, rfl⟩⟩
  · rintro w₁ q₁ r ⟨rfl, ⟨u, hu, hnamed, rfl⟩ | ⟨hnone, rfl⟩⟩
    · exact refreshAdmin_faultless (Table.get?_of_mem hu) hnamed (hreserved u hu hnamed)
    · refine Alone.bind (upsertAdmin_faultless hnone ⟨?_, rfl, rfl, rfl⟩ rfl) ?_ ?_
      · exact named_iff.mpr rfl
      · rintro w₂ q₂ _ ⟨_, hglass⟩
        exact alone_pure ⟨rfl, hglass⟩
      · rintro _ _ _ ⟨⟨_, h⟩, _⟩
        cases h

end Faultless

/-! ## Runs -/

section Runs

variable [Bcrypt] {w : World} {name : String}

/-- What a program that runs alone keeps, as long as it is told of identities apart. -/
theorem apart_keeps {α : Type} {w₀ : World} {b : Bool} {q : Trace sig} {p : Prog sig α}
    {post : World → Trace sig → α → Prop}
    (hp : p.Alone exec AnyEnv (ApartWarrant name w₀ b) post w q)
    (hunique : UniqueNames w) (hreserved : Reserved name w) :
    p.Alone exec AnyEnv
      (fun w' q' s => ApartWarrant name w₀ b w' q' s ∧
        (KeepsApart name w₀ q' → UniqueNames w' ∧ Reserved name w'))
      (fun w' q' a => post w' q' a ∧
        (KeepsApart name w₀ q' → UniqueNames w' ∧ Reserved name w')) w q := by
  refine Prog.Alone.keeps hp ?_ fun _ => ⟨hunique, hreserved⟩
  intro e w₁ q₁ s x w₂ _ hs hkept hx hq
  exact apart_step hx hs hq.before (hkept hq.before)

/-- As long as nothing fails, the break-glass administrator is there. -/
theorem breakGlass_of_apart {m : Manager} {la : LocalAdmin} (hconfigured : la.username ≠ "")
    (hhash : la.passwordHash ≠ "") (hunique : UniqueNames w)
    (hreserved : Reserved la.username w) : BreakGlass m la w := by
  intro e he
  obtain ⟨⟨r, w'⟩, hr⟩ := Prog.evalWith_total (e := e)
    (fun w s => let ⟨x, w', h⟩ := exec_total e w s; ⟨(x, w'), h⟩) (ensureLocalAdmin la).run w
  obtain ⟨_, rfl, u, hu, hglass⟩ := Prog.Alone.evalWith
    (ensureLocalAdmin_faultless (q := []) hconfigured hhash hreserved) he hr
  have halone : (ensureLocalAdmin la).Alone exec AnyEnv (ApartWarrant la.username w false)
      (fun _ _ _ => True) w [] := ensureLocalAdmin_alone la
  have hasked := Prog.Alone.and_keeps halone
    (ensureLocalAdmin_uses (l := [.insertUser, .updateUser, .setUserRole, .setUserPassword])
      (by simp) la) (fun q s x hq hs => unidentified_snoc hq (identified_of_within (by simp) x hs))
    fun _ h => nomatch h
  obtain ⟨q', ⟨_, hquiet⟩, hkept⟩ := Prog.Alone.evalWith
    (apart_keeps hasked hunique hreserved) trivial hr
  have hunique' := (hkept fun x hx id hid => absurd (hquiet x hx) (by rw [hid]; simp)).1
  exact ⟨w', u, hr, hu, hglass, fun _ _ hm hown => accepts_of_row hunique' hu hm hown⟩

/-- What a sign-in leaves of a local account: all of it, but for the time. -/
theorem local_step {w₀ w' : World} {q : Trace sig} {e : Env} {s : Stmt} {x : s.Ans}
    (hx : exec e w s = some (x, w')) (hs : ApartWarrant name w₀ true w q s)
    (hq : KeepsApart name w₀ q) {id : Nat} {r : User} (hr : w.users.get? id = some r)
    (hlocal : r.source = .sourceLocal) :
    ∃ t, w'.users.get? id = some { r with lastLogin := t } := by
  have hstep := user_step hx id
  rw [hr] at hstep
  generalize hold : some r = old at hstep
  generalize w'.users.get? id = new at hstep
  cases hstep with
  | same _ => exact ⟨r.lastLogin, hold.symm⟩
  | inserted _ _ => cases hold
  | updated hstmt =>
    subst hstmt
    rcases hs hq with ⟨h, _⟩ | h
    · cases h
    · exact absurd hlocal (h r hr)
  | role hstmt =>
    subst hstmt
    cases hs
  | disabled hstmt =>
    subst hstmt
    cases hs
  | password hstmt =>
    subst hstmt
    cases hs
  | @touched r' time _ =>
    cases hold
    exact ⟨some time, rfl⟩
  | deleted _ hstmt =>
    subst hstmt
    cases hs

variable [Go.Runtime] {c : Call} {es : List Env}

/-- What is kept along a call. -/
theorem alone_holds (name : String) {J : World → Trace sig → Prop} (hunique : UniqueNames w)
    (step : ∀ e w₁ q s x w₂, ApartWarrant name w c.op.signsIn w₁ q s → J w₁ q →
      exec e w₁ s = some (x, w₂) → J w₂ (q ++ [⟨s, x⟩])) (h : J w []) :
    J (alone w c es).world (Interleave.own 0 (alone w c es).history) := by
  have hserve : c.serve.Alone exec AnyEnv (ApartWarrant name w c.op.signsIn)
      (fun _ _ _ => True) w [] := serve_apart c hunique
  obtain ⟨p, _, hp⟩ := (hserve.keeps (fun e w₁ q s x w₂ _ => step e w₁ q s x w₂) h).run
    fun e (_ : e ∈ es) => trivial
  exact hp.holds

/-- **A call that is told of identities apart** keeps the names apart. -/
theorem alone_apart (hunique : UniqueNames w) (hreserved : Reserved name w)
    (hc : Apart name w c es) :
    UniqueNames (alone w c es).world ∧ Reserved name (alone w c es).world := by
  refine alone_holds name (J := fun w' q => KeepsApart name w q → UniqueNames w' ∧ Reserved name w')
    hunique ?_ (fun _ => ⟨hunique, hreserved⟩) hc
  intro e w₁ q s x w₂ hs hkept hx hq
  exact apart_step hx hs hq.before (hkept hq.before)

/-- A sign-in leaves every local account as it is, but for the time. -/
theorem signsIn_kept (hunique : UniqueNames w) (hsigns : c.op.signsIn = true)
    (hc : Apart name w c es) {id : Nat} {r : User} (hr : w.users.get? id = some r)
    (hlocal : r.source = .sourceLocal) :
    ∃ t, (alone w c es).world.users.get? id = some { r with lastLogin := t } := by
  refine alone_holds name (J := fun w' q => KeepsApart name w q →
    ∃ t, w'.users.get? id = some { r with lastLogin := t }) hunique ?_
    (fun _ => ⟨r.lastLogin, hr⟩) hc
  intro e w₁ q s x w₂ hs hkept hx hq
  rw [hsigns] at hs
  obtain ⟨t, ht⟩ := hkept hq.before
  obtain ⟨t', ht'⟩ := local_step hx hs hq.before ht hlocal
  exact ⟨t', ht'⟩

/-- Once the directory or the provider has answered, nobody comes in as a local account. -/
theorem signsIn_sessions (hunique : UniqueNames w) (hsigns : c.op.signsIn = true)
    (hc : Apart name w c es) {q₁ q₂ : Trace sig} {x : (s : Stmt) × s.Ans} {uid : Nat}
    (hown : Interleave.own 0 (alone w c es).history = q₁ ++ [x] ++ q₂)
    (hx : signedInAs x = some uid) (hq₁ : Identified q₁) : NotLocal w uid := by
  obtain ⟨s, x⟩ := x
  have hlen : (alone w c es) = (serving w [c]).upto exec (Pool.solo es) (Pool.solo es).length :=
    (Pool.upto_length exec _ _).symm
  rw [hlen] at hown
  obtain ⟨m, e, hm, hasked, hq⟩ := Pool.own_origin (q := q₁) (s := s) (x := x) le_rfl rfl
    (by rw [hown]; exact List.prefix_append _ _)
  have hsolo : (Pool.solo es).take m = Pool.solo (es.take m) := (List.map_take ..).symm
  have hnext := hasked.next
  unfold Pool.upto at hnext hq
  rw [hsolo] at hnext hq
  have hserve : c.serve.Alone exec AnyEnv (ApartWarrant name w c.op.signsIn)
      (fun _ _ _ => True) w [] := serve_apart c hunique
  have hmay := hserve.next (fun _ _ => trivial) hnext
  have happart : KeepsApart name w q₁ := by
    unfold Apart at hc
    rw [hlen, hown, List.append_assoc] at hc
    exact hc.before
  have hthere : NotLocal (alone w c (es.take m)).world uid := by
    have hq' : Interleave.own 0 ((Pool.init w [c.serve]).run exec (Pool.solo (es.take m))).history =
      q₁ := hq
    rw [hq'] at hmay
    unfold signedInAs at hx
    split at hx
    next t _ heq =>
      cases heq
      cases hx
      exact hmay happart hq₁
    next t _ heq =>
      cases heq
      cases hx
      exact hmay happart hq₁
    next => cases hx
  intro r hr hlocal
  have hc' : Apart name w c (es.take m) := by
    unfold Apart alone
    rw [hq]
    exact happart
  obtain ⟨t, ht⟩ := signsIn_kept hunique hsigns hc' hr hlocal
  exact hthere _ ht hlocal

/-- A sign-in that is told of identities apart leaves the local accounts alone. -/
theorem safeLogin_of_apart (hunique : UniqueNames w) (hreserved : Reserved name w)
    (hsigns : c.op.signsIn = true) (hc : Apart name w c es) : SafeLogin w c es := by
  refine ⟨?_, ?_, ?_⟩
  · intro id r hr hlocal
    exact signsIn_kept hunique hsigns hc hr hlocal
  · intro q₁ x q₂ uid hown hx hq₁
    exact signsIn_sessions hunique hsigns hc hown hx hq₁
  · intro m username password u hu hm hown
    obtain ⟨t, ht⟩ := signsIn_kept hunique hsigns hc (Table.get?_of_mem hu) hown.source
    have hunique' := (alone_apart hunique hreserved hc).1
    have hown' : OwnPassword { u with lastLogin := t } username password :=
      ⟨hown.source, hown.enabled, hown.spelled, hown.typed, hown.hash⟩
    exact accepts_of_row (u := { u with lastLogin := t }) hunique' (Table.mem_of_get? ht) hm hown'

/-- The names stay apart over every sequence of calls. -/
theorem apart_of_reached (h : Reached (Apart name) .empty w) :
    UniqueNames w ∧ Reserved name w := by
  induction h with
  | start => exact ⟨fun _ hu => (nomatch hu), fun _ hu => (nomatch hu)⟩
  | call _ c es hc ih => exact alone_apart ih.1 ih.2 hc

/-- **Local accounts stay their owners'**: in every sequence of calls that are told of identities
apart, every sign-in leaves the local accounts alone, and the break-glass administrator is there. -/
theorem reached_apart (h : Reached (Apart name) .empty w) :
    (∀ c es, c.op.signsIn = true → Apart name w c es → SafeLogin w c es) ∧
      ∀ (m : Manager) (la : LocalAdmin), la.username = name → name ≠ "" → la.passwordHash ≠ "" →
        BreakGlass m la w := by
  obtain ⟨hunique, hreserved⟩ := apart_of_reached h
  constructor
  · intro c es hsigns hc
    exact safeLogin_of_apart hunique hreserved hsigns hc
  · rintro m la rfl hname hhash
    exact breakGlass_of_apart hname hhash hunique hreserved

end Runs

/-! ## Two identities -/

section Identities

attribute [local instance] saltedBcrypt Go.asciiRuntime

/-- A server with a provider beside its local accounts. -/
def ssoPortal : Server := { portal with
  auth := { portal.auth with mode := .modeBoth, oidcEnabled := true } }

/-- The local administrator of the configuration. -/
def breakGlass : LocalAdmin := ⟨"admin", "$2a$s$letmein"⟩

/-- The server is started. -/
def startUp : Call := ⟨ssoPortal, {}, .start breakGlass⟩

/-- The provider sends a browser back. -/
def ssoLogin : Call := ⟨ssoPortal, {}, .handleOIDCCallback {
  expected := some ("s", "n")
  state := "s"
  code := "c" }⟩

/-- The moves of a call, in which the provider vouches for `username`. -/
def vouchedFor (username : String) : List Env :=
  List.replicate 20 { atOnce with identity := .ok ⟨username, "", "", false⟩ }

/-- The database after the server was started once. -/
def started : World := (alone .empty startUp (vouchedFor "")).world

/-- The database after a sign-in of somebody whom the provider knows by the name of the local
administrator. -/
def takenOver : World := (alone started ssoLogin (vouchedFor "Admin")).world

/-- The row of the local administrator. -/
def adminRow : User where
  id := 1
  username := "admin"
  source := .sourceLocal
  displayName := "Local administrator"
  role := roleAdmin
  passHash := "$2a$s$letmein"

/-- The identities that a call is told of have new names. -/
def tellsNewNames (name : String) (w : World) (c : Call) (es : List Env) : Bool :=
  ((Interleave.own 0 (alone w c es).history).filterMap identified).all fun id =>
    !w.users.rows.any (User.named id.username) && sqlLower id.username != sqlLower name

theorem apart_of_new {name : String} {w : World} {c : Call} {es : List Env}
    (h : tellsNewNames name w c es = true) : Apart name w c es := by
  intro x hx id hid
  have hnew := List.all_eq_true.mp h id (List.mem_filterMap.mpr ⟨x, hx, hid⟩)
  rw [Bool.and_eq_true, Bool.not_eq_true', List.any_eq_false, bne_iff_ne] at hnew
  exact ⟨fun u hu hnamed => absurd hnamed (hnew.1 u hu), fun h => absurd h hnew.2⟩

/-- What is computed of the runs: the names that they are told, and the administrator's account
before and after it is taken over. -/
theorem administrator_facts :
    tellsNewNames "admin" .empty startUp (vouchedFor "") = true ∧
    tellsNewNames "admin" started ssoLogin (vouchedFor "carol") = true ∧
    started.users.get? 1 = some adminRow ∧
    (takenOver.users.get? 1).map User.source = some .sourceOIDC ∧
    ((ssoPortal.auth.authenticate "admin" "letmein").run.evalWith exec atOnce takenOver).map
      (fun r => r.1.toOption.isSome) = some false := by
  decide +kernel

theorem startUp_apart : Apart "admin" .empty startUp (vouchedFor "") :=
  apart_of_new administrator_facts.1

theorem unique_started : UniqueNames started :=
  (apart_of_reached (.call .start startUp (vouchedFor "") startUp_apart)).1

/-- Somebody signs in whom only the provider knows. -/
theorem safeLogin_carol : SafeLogin started ssoLogin (vouchedFor "carol") ∧
    BreakGlass ssoPortal.auth breakGlass started := by
  have hcarol : Apart "admin" started ssoLogin (vouchedFor "carol") :=
    apart_of_new administrator_facts.2.1
  obtain ⟨hlogins, hglass⟩ := reached_apart (.call .start startUp (vouchedFor "") startUp_apart)
  exact ⟨hlogins ssoLogin _ rfl hcarol,
    hglass ssoPortal.auth breakGlass rfl (by decide) (by decide)⟩

/-- Somebody signs in whom the provider knows by the name of the local administrator: the account
is no longer a local one, and its password is refused. -/
theorem admin_taken_over :
    Reached (fun _ _ _ => True) .empty started ∧ ssoLogin.op.signsIn = true ∧
      ¬ SafeLogin started ssoLogin (vouchedFor "Admin") ∧
      Accepts ssoPortal.auth started "admin" "letmein" 1 ∧
      ¬ Accepts ssoPortal.auth takenOver "admin" "letmein" 1 := by
  obtain ⟨_, _, hstarted, hsource, hrefused⟩ := administrator_facts
  refine ⟨.call .start startUp _ trivial, rfl, ?_, ?_, ?_⟩
  · intro h
    obtain ⟨t, ht⟩ := h.kept 1 adminRow hstarted rfl
    rw [takenOver, ht, Option.map_some, Option.some.injEq] at hsource
    exact Source.noConfusion hsource
  · have hown : OwnPassword adminRow "admin" "letmein" :=
      ⟨rfl, rfl, by decide, by decide, by decide⟩
    exact accepts_of_row unique_started (Table.mem_of_get? hstarted) rfl hown
  · intro h
    obtain ⟨u, w', heval, _⟩ := h atOnce rfl
    rw [heval] at hrefused
    cases hrefused

end Identities

end Goca.Auth
