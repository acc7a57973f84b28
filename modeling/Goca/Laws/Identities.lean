import Goca.Auth.Step
import Goca.Lib.Alone

/-!
# Identities from outside

An identity that a directory or a provider vouches for is mirrored into the account of its name,
whatever account that is: nothing compares the two. What a call that runs alone may ask is told
here under the condition that the identities it hears of have no name of a local account.

- `ApartWarrant`: it makes and refreshes local accounts only where nobody signs in, and lets nobody
  in as a local account once the directory or the provider has answered.
- `serve_apart`: every call of the server keeps to that.
-/

set_option autoImplicit false

namespace Goca.Auth

open Goca.Store (sqlLower)
open Interleave (Act Pool Prog Trace)
open Interleave.Act
open Sql (Table)

/-! ## Identities -/

/-- The calls that sign somebody in. -/
def Op.signsIn : Op → Bool
  | .apiAuthLogin _ | .handleLoginSubmit _ _ | .handleOIDCCallback _ => true
  | _ => false

/-- Who the directory or the provider said has signed in. -/
def identified : (s : Stmt) × s.Ans → Option Identity
  | ⟨.host (.ldapAuthenticate _ _), .ok id⟩ => some id
  | ⟨.host (.oidcExchange _ _), .ok id⟩ => some id
  | _ => none

/-- The account that a session or a token was stored for. -/
def signedInAs : (s : Stmt) × s.Ans → Option Nat
  | ⟨.db (.insertSession s), _⟩ => some s.userID
  | ⟨.db (.insertAPIToken t), _⟩ => some t.userID
  | _ => none

/-- The directory or the provider has said who has signed in. -/
def Identified (q : Trace sig) : Prop := ∃ x ∈ q, (identified x).isSome = true

/-- An identity that comes near no local account: it has the name of none, unless of a disabled one
whose look-ups did not fail; and the reserved name only where that is the name of an account. -/
structure Foreign (name : String) (w : World) (q : Trace sig) (id : Identity) : Prop where
  owned : ∀ u ∈ w.users.rows, User.named id.username u = true → u.source = .sourceLocal →
    u.disabled = true ∧ ∀ err,
      (⟨.db (.selectUserByName id.username), .error err⟩ : (s : Stmt) × s.Ans) ∉ q
  reserved : sqlLower id.username = sqlLower name → ∃ u ∈ w.users.rows, User.named name u = true

/-- Every identity that a call was told of comes near no local account. -/
def KeepsApart (name : String) (w : World) (q : Trace sig) : Prop :=
  ∀ x ∈ q, ∀ id, identified x = some id → Foreign name w q id

/-- The account of a row is not a local one. -/
def NotLocal (w : World) (id : Nat) : Prop :=
  ∀ r, w.users.get? id = some r → r.source ≠ .sourceLocal

/-! ## What a call may ask -/

/-- No two accounts have one name, in either case. -/
def UniqueNames (w : World) : Prop :=
  ∀ u ∈ w.users.rows, ∀ v ∈ w.users.rows, sqlLower u.username = sqlLower v.username → u = v

/-- Only local accounts have the reserved name. -/
def Reserved (name : String) (w : World) : Prop :=
  ∀ u ∈ w.users.rows, User.named name u = true → u.source = .sourceLocal

/-- What a call may ask at a world, if it is told of identities apart. Local accounts are made and
refreshed by calls that sign nobody in. -/
def ApartWarrant (name : String) (w₀ : World) (signsIn : Bool) (w : World) (q : Trace sig) :
    Stmt → Prop
  | .db (.insertUser u) => KeepsApart name w₀ q →
    (∀ v ∈ w.users.rows, User.named u.username v = false) ∧
      (u.source = .sourceLocal ∨ sqlLower u.username ≠ sqlLower name)
  | .db (.updateUser id source _ _ _) => KeepsApart name w₀ q →
    (signsIn = false ∧ source = .sourceLocal) ∨ NotLocal w id
  | .db (.insertSession s) => KeepsApart name w₀ q → Identified q → NotLocal w s.userID
  | .db (.insertAPIToken t) => KeepsApart name w₀ q → Identified q → NotLocal w t.userID
  | .db (.setUserRole _ _) | .db (.setUserDisabled _ _) | .db (.setUserPassword _ _)
  | .db (.deleteUser _) => signsIn = false
  | _ => True

theorem KeepsApart.before {name : String} {w : World} {q q' : Trace sig}
    (h : KeepsApart name w (q ++ q')) : KeepsApart name w q := by
  intro x hx id hid
  obtain ⟨howned, hreserved⟩ := h x (List.mem_append_left q' hx) id hid
  refine ⟨fun u hu hnamed hlocal => ?_, hreserved⟩
  obtain ⟨hdisabled, hread⟩ := howned u hu hnamed hlocal
  exact ⟨hdisabled, fun err herr => hread err (List.mem_append_left q' herr)⟩

theorem named_iff {name : String} {u : User} :
    User.named name u = true ↔ sqlLower u.username = sqlLower name := beq_iff_eq

/-! ## One statement -/

section Step

variable [Bcrypt] {e : Env} {w w' : World} {s : Stmt} {x : s.Ans} {name : String}

/-- The number of an account that was stored. -/
theorem inserted_id {u : User} {id : Nat}
    (hx : exec e w (.db (.insertUser u)) = some (.ok id, w')) : id = w.users.seq + 1 := by
  have hdone := exec_db_ok hx
  simp only [World.exec] at hdone
  split at hdone
  · cases hdone
  · exact (Except.ok.inj hdone).symm

/-- A row of the new table is one of the old table under its name, or it was inserted. -/
theorem user_origin (hx : exec e w s = some (x, w')) {u : User} (hu : u ∈ w'.users.rows) :
    (∃ v ∈ w.users.rows, v.id = u.id ∧ v.username = u.username ∧
      (v.source = u.source ∨ ∃ d m r, s = .db (.updateUser u.id u.source d m r))) ∨
    ∃ n, s = .db (.insertUser n) ∧ u.username = n.username ∧ u.source = n.source ∧
      u.id = w.users.seq + 1 := by
  have hstep := user_step hx u.id
  have hget : w'.users.get? u.id = some u := Table.get?_of_mem hu
  rw [hget] at hstep
  generalize hold : w.users.get? u.id = old at hstep
  generalize hnew : some u = new at hstep
  have hfrom {r : User} (h : old = some r) : r ∈ w.users.rows ∧ r.id = u.id := by
    rw [h] at hold
    exact ⟨Table.mem_of_get? hold, Table.key_of_get? hold⟩
  cases hstep with
  | same _ =>
    obtain ⟨hmem, hid⟩ := hfrom hnew.symm
    exact .inl ⟨u, hmem, hid, rfl, .inl rfl⟩
  | inserted hstmt hnext =>
    refine .inr ⟨_, hstmt, ?_, ?_, hnext⟩ <;> rw [Option.some.inj hnew]
  | @updated r source d m role hstmt =>
    obtain ⟨hmem, hid⟩ := hfrom rfl
    have hu := Option.some.inj hnew
    refine .inl ⟨r, hmem, hid, by rw [hu], .inr ⟨d, m, role, ?_⟩⟩
    rw [hstmt]
    congr 2
    rw [hu]
  | @role r _ _ =>
    obtain ⟨hmem, hid⟩ := hfrom rfl
    exact .inl ⟨r, hmem, hid, by rw [Option.some.inj hnew], .inl (by rw [Option.some.inj hnew])⟩
  | @disabled r _ _ =>
    obtain ⟨hmem, hid⟩ := hfrom rfl
    exact .inl ⟨r, hmem, hid, by rw [Option.some.inj hnew], .inl (by rw [Option.some.inj hnew])⟩
  | @password r _ _ =>
    obtain ⟨hmem, hid⟩ := hfrom rfl
    exact .inl ⟨r, hmem, hid, by rw [Option.some.inj hnew], .inl (by rw [Option.some.inj hnew])⟩
  | @touched r _ _ =>
    obtain ⟨hmem, hid⟩ := hfrom rfl
    exact .inl ⟨r, hmem, hid, by rw [Option.some.inj hnew], .inl (by rw [Option.some.inj hnew])⟩
  | deleted _ _ => cases hnew

/-- **A statement of a call that is told of identities apart** keeps the names apart. -/
theorem apart_step {w₀ : World} {b : Bool} {q : Trace sig} (hx : exec e w s = some (x, w'))
    (hs : ApartWarrant name w₀ b w q s) (hq : KeepsApart name w₀ q)
    (hw : UniqueNames w ∧ Reserved name w) : UniqueNames w' ∧ Reserved name w' := by
  obtain ⟨hunique, hreserved⟩ := hw
  constructor
  · intro u hu v hv hname
    rcases user_origin hx hu with ⟨u', hu', hid, hu'name, _⟩ | ⟨n, hn, huname, _, hid⟩ <;>
      rcases user_origin hx hv with ⟨v', hv', hvid, hv'name, _⟩ | ⟨n', hn', hvname, _, hvid⟩
    · have hsame := hunique u' hu' v' hv' (by rw [hu'name, hv'name, hname])
      refine Table.eq_of_key_eq hu hv ?_
      show u.id = v.id
      rw [← hid, ← hvid, hsame]
    · subst hn'
      have hfree := (hs hq).1 u' hu'
      rw [← Bool.not_eq_true, named_iff, hu'name, hname, hvname] at hfree
      exact absurd rfl hfree
    · subst hn
      have hfree := (hs hq).1 v' hv'
      rw [← Bool.not_eq_true, named_iff, hv'name, ← hname, huname] at hfree
      exact absurd rfl hfree
    · refine Table.eq_of_key_eq hu hv ?_
      show u.id = v.id
      rw [hid, hvid]
  · intro u hu hnamed
    rcases user_origin hx hu with ⟨v, hv, hid, hname, hsource⟩ | ⟨n, hn, hname, hsource, _⟩
    · have hvnamed : User.named name v = true := by
        rw [named_iff, hname]
        exact named_iff.mp hnamed
      have hlocal := hreserved v hv hvnamed
      rcases hsource with hsource | ⟨d, m, r, hupdate⟩
      · rw [← hsource]
        exact hlocal
      · subst hupdate
        rcases hs hq with ⟨_, h⟩ | hnot
        · exact h
        · have hget : w.users.get? v.id = some v := Table.get?_of_mem hv
          exact absurd hlocal (hnot v (hid ▸ hget))
    · subst hn
      rw [hsource]
      rcases (hs hq).2 with h | h
      · exact h
      · rw [named_iff, hname] at hnamed
        exact absurd hnamed h

/-! ## Statements that make no local account -/

/-- A statement that makes no account a local one and deletes none. -/
def Gentle : Stmt → Prop
  | .db (.insertUser u) => u.source ≠ .sourceLocal
  | .db (.updateUser _ source _ _ _) => source ≠ .sourceLocal
  | .db (.deleteUser _) => False
  | _ => True

/-- No local account has the name, and where it is the reserved one, some account has it. -/
def NotOwned (name username : String) (w : World) : Prop :=
  (∀ v ∈ w.users.rows, User.named username v = true → v.source ≠ .sourceLocal) ∧
    (sqlLower username = sqlLower name → ∃ v ∈ w.users.rows, User.named username v = true)

theorem notLocal_step (hx : exec e w s = some (x, w')) (hs : Gentle s) {id : Nat}
    (h : NotLocal w id) : NotLocal w' id := by
  intro r hr
  have hid : r.id = id := Table.key_of_get? hr
  rcases user_origin hx (Table.mem_of_get? hr) with ⟨v, hv, hvid, _, hsource⟩ | ⟨n, hn, _, hn', _⟩
  · rcases hsource with hsource | ⟨d, m, role, hupdate⟩
    · have hget : w.users.get? v.id = some v := Table.get?_of_mem hv
      rw [hvid, hid] at hget
      rw [← hsource]
      exact h v hget
    · subst hupdate
      exact hs
  · subst hn
    rw [hn']
    exact hs

theorem notOwned_step (hx : exec e w s = some (x, w')) (hs : Gentle s) {username : String}
    (h : NotOwned name username w) : NotOwned name username w' := by
  constructor
  · intro u hu hnamed
    rcases user_origin hx hu with ⟨v, hv, _, hname, hsource⟩ | ⟨n, hn, _, hn', _⟩
    · rcases hsource with hsource | ⟨d, m, role, hupdate⟩
      · rw [← hsource]
        refine h.1 v hv ?_
        rw [named_iff, hname]
        exact named_iff.mp hnamed
      · subst hupdate
        exact hs
    · subst hn
      rw [hn']
      exact hs
  · intro hname
    obtain ⟨v, hv, hnamed⟩ := h.2 hname
    have hstep := user_step hx v.id
    have hget : w.users.get? v.id = some v := Table.get?_of_mem hv
    rw [hget] at hstep
    generalize hnew : w'.users.get? v.id = new at hstep
    cases hstep with
    | same _ => exact ⟨v, Table.mem_of_get? hnew, hnamed⟩
    | deleted _ hstmt =>
      subst hstmt
      exact hs.elim
    | _ => exact ⟨_, Table.mem_of_get? hnew, hnamed⟩

end Step

/-! ## Looking an account up -/

section Walk

variable [Bcrypt] {ε α : Type} {w w₀ : World} {q : Trace sig} {name : String} {b : Bool}

/-- Every environment is one that a statement can meet. -/
abbrev AnyEnv : Env → Prop := fun _ => True

/-- A statement that runs alone, for every answer that the tables give. -/
theorem db_alone {may : World → Trace sig → Stmt → Prop} {s : DbStmt}
    {post : World → Trace sig → Except Go.Error s.Res → Prop} (hmay : may w q (.db s))
    (hpost : ∀ e x w', exec e w (.db s) = some (x, w') → post w' (q ++ [⟨.db s, x⟩]) x) :
    (db s).Alone exec AnyEnv may post w q :=
  ⟨hmay, fun e x w' _ hx => hpost e x w' hx⟩

theorem host_alone {may : World → Trace sig → Stmt → Prop} {s : HostStmt}
    {post : World → Trace sig → Except ε s.Res → Prop} (hmay : may w q (.host s))
    (hpost : ∀ x : s.Res, post w (q ++ [⟨.host s, x⟩]) (.ok x)) :
    (host s : Handler ε s.Res).Alone exec AnyEnv may post w q := by
  refine ⟨hmay, ?_⟩
  intro e x w' _ hx
  obtain ⟨_, rfl⟩ := exec_host hx
  exact hpost x

/-- What a look-up by name can be told of the accounts. -/
def LookedUp (w : World) (username : String) : Except Go.Error (Option User) → Prop
  | .ok (some u) => u ∈ w.users.rows ∧ User.named username u = true
  | .ok none => ∀ v ∈ w.users.rows, User.named username v = false
  | .error err => err.isNotFound = false

/-- Reading leaves the tables as they are. -/
theorem exec_selectUserByName {e : Env} {w' : World} {username : String}
    {x : Except Go.Error (Option User)}
    (hx : exec e w (.db (.selectUserByName username)) = some (x, w')) :
    w' = w ∧ LookedUp w username x := by
  obtain ⟨hx, hw⟩ := exec_db hx
  cases hf : e.fault with
  | none =>
    rw [hf] at hx hw
    refine ⟨hw, ?_⟩
    subst hx
    show LookedUp w username (.ok (Store.pickRow e.pick
      (w.users.rows.filter (User.named username))))
    cases hpick : Store.pickRow e.pick (w.users.rows.filter (User.named username)) with
    | some u => exact List.mem_filter.mp (List.mem_of_getElem? hpick)
    | none =>
      intro v hv
      by_contra hnamed
      have hmem : v ∈ w.users.rows.filter (User.named username) :=
        List.mem_filter.mpr ⟨hv, Bool.eq_true_of_not_eq_false hnamed⟩
      have hlen : 0 < (w.users.rows.filter (User.named username)).length :=
        List.length_pos_of_mem hmem
      have hnone := List.getElem?_eq_none_iff.mp hpick
      exact absurd (Nat.mod_lt e.pick hlen) (by omega)
  | lost text =>
    rw [hf] at hx hw
    subst hx
    exact ⟨hw, rfl⟩
  | late text =>
    rw [hf] at hx hw
    subst hx
    exact ⟨hw, rfl⟩

theorem getUserByName_alone {may : World → Trace sig → Stmt → Prop} {username : String}
    {post : World → Trace sig → Except Go.Error User → Prop}
    (hmay : may w q (.db (.selectUserByName username)))
    (hpost : ∀ x, LookedUp w username x →
      post w (q ++ [⟨.db (.selectUserByName username), x⟩]) (Store.row x)) :
    (getUserByName username).Alone exec AnyEnv may post w q := by
  refine Alone.mapResult (db_alone hmay ?_)
  intro e x w' hx
  obtain ⟨rfl, hlooked⟩ := exec_selectUserByName hx
  exact hpost x hlooked

/-! ## What is allowed -/

/-- The effects that make an account, or let somebody in. -/
abbrev letting : List Effect := [.insertUser, .updateUser, .insertSession, .insertAPIToken]

/-- The effects that only an administrator's call has. -/
abbrev changing : List Effect := [.setUserRole, .setUserDisabled, .setUserPassword, .deleteUser]

omit [Bcrypt] in
theorem not_signsIn {l : List Effect} (hb : b = true → ∀ k ∈ changing, k ∉ l) {k : Effect}
    (hk : k ∈ changing) (hs : k ∈ l) : b = false := by
  rw [← Bool.not_eq_true]
  exact fun h => hb h k hk hs

omit [Bcrypt] in
theorem warrant_of_quiet {l : List Effect} (h₁ : ∀ k ∈ letting, k ∉ l)
    (hb : b = true → ∀ k ∈ changing, k ∉ l) {s : Stmt} (hs : Within l s) :
    ApartWarrant name w₀ b w q s := by
  unfold ApartWarrant
  split
  · exact absurd hs (h₁ .insertUser (by simp))
  · exact absurd hs (h₁ .updateUser (by simp))
  · exact absurd hs (h₁ .insertSession (by simp))
  · exact absurd hs (h₁ .insertAPIToken (by simp))
  · exact not_signsIn hb (k := .setUserRole) (by simp) hs
  · exact not_signsIn hb (k := .setUserDisabled) (by simp) hs
  · exact not_signsIn hb (k := .setUserPassword) (by simp) hs
  · exact not_signsIn hb (k := .deleteUser) (by simp) hs
  · exact trivial

/-- Nobody outside has been asked yet who signs in. -/
def Unidentified (q : Trace sig) : Prop := ∀ x ∈ q, identified x = none

omit [Bcrypt] in
theorem identified_of_within {l : List Effect} (h : .askDirectory ∉ l) {s : Stmt} (x : s.Ans)
    (hs : Within l s) : identified ⟨s, x⟩ = none := by
  unfold identified
  split
  · next heq => cases heq; exact absurd hs h
  · next heq => cases heq; exact absurd hs h
  · rfl

omit [Bcrypt] in
theorem unidentified_snoc {s : Stmt} {x : s.Ans} (hq : Unidentified q)
    (hx : identified ⟨s, x⟩ = none) : Unidentified (q ++ [⟨s, x⟩]) := by
  intro y hy
  rcases List.mem_append.mp hy with hy | hy
  · exact hq y hy
  · rw [List.mem_singleton.mp hy]
    exact hx

omit [Bcrypt] in
theorem Unidentified.not_identified (hq : Unidentified q) : ¬ Identified q := by
  rintro ⟨x, hx, hsome⟩
  rw [hq x hx] at hsome
  cases hsome

/-- What asks nobody outside, and makes no account. -/
theorem unasked_alone {l : List Effect} (h₁ : .insertUser ∉ l) (h₂ : .updateUser ∉ l)
    (h₃ : .askDirectory ∉ l) (hb : b = true → ∀ k ∈ changing, k ∉ l) {p : Prog sig α}
    (hp : p.Uses (Within l)) (hq : Unidentified q) :
    p.Alone exec AnyEnv (ApartWarrant name w₀ b) (fun _ q' _ => Unidentified q') w q := by
  refine Prog.Uses.alone (J := fun _ q => Unidentified q) hp ?_ ?_ hq
  · intro w q s hq hs
    unfold ApartWarrant
    split
    · exact absurd hs h₁
    · exact absurd hs h₂
    · exact fun _ hid => absurd hid hq.not_identified
    · exact fun _ hid => absurd hid hq.not_identified
    · exact not_signsIn hb (k := .setUserRole) (by simp) hs
    · exact not_signsIn hb (k := .setUserDisabled) (by simp) hs
    · exact not_signsIn hb (k := .setUserPassword) (by simp) hs
    · exact not_signsIn hb (k := .deleteUser) (by simp) hs
    · exact trivial
  · intro e w q s x w' hs hq _
    exact unidentified_snoc hq (identified_of_within h₃ x hs)

/-! ## Storing an account -/

/-- **A local account** is stored over nothing, or over an account by a call that signs nobody
in. -/
theorem upsertLocal_once {u : User} (hu : u.source = .sourceLocal) :
    (upsertUserOnce u).Alone exec AnyEnv (ApartWarrant name w₀ false) (fun _ _ _ => True) w q := by
  have hread (w : World) (q : Trace sig) (id : Nat) : (getUser id).Alone exec AnyEnv
      (ApartWarrant name w₀ false) (fun _ _ _ => True) w q :=
    Alone.mapResult (db_alone trivial fun _ _ _ _ => trivial)
  refine alone_attempt_bind (m := fun w' _ r => ∃ x, LookedUp w' u.username x ∧ r = Store.row x)
    (getUserByName_alone trivial fun x hx => ⟨x, hx, rfl⟩) ?_
  rintro w' q' r ⟨x, hx, rfl⟩
  rcases x with err | _ | v
  · have herr : err.isNotFound = false := hx
    show (if err.isNotFound = true then _ else throw err : Handler Go.Error User).Alone _ _ _ _ _ _
    rw [if_neg (by rw [herr]; exact Bool.false_ne_true)]
    exact alone_throw trivial
  · refine Alone.bind (m := fun _ _ _ => True) (db_alone (s := .insertUser _)
      (fun _ => ⟨hx, .inl hu⟩) fun _ _ _ _ => trivial) ?_ fun _ _ _ _ => trivial
    intro w₂ q₂ id _
    exact hread w₂ q₂ id
  · refine Alone.bind (m := fun _ _ _ => True) (db_alone (s := .updateUser _ _ _ _ _)
      (fun _ => .inl ⟨rfl, hu⟩) fun _ _ _ _ => trivial) ?_ fun _ _ _ _ => trivial
    intro w₂ q₂ _ _
    exact hread w₂ q₂ v.id

/-- An upsert that two attempts are made of. -/
theorem upsertUser_alone {may : World → Trace sig → Stmt → Prop} {u : User}
    {I : World → Trace sig → Prop} {post : World → Trace sig → Except Go.Error User → Prop}
    (hread : ∀ w q, I w q → may w q (.db (.selectUserByName u.username)))
    (hkeep : ∀ w q x, I w q → I w (q ++ [⟨.db (.selectUserByName u.username), x⟩]))
    (honce : ∀ w q, I w q → (upsertUserOnce u).Alone exec AnyEnv may
      (fun w' q' r => I w' q' ∧ post w' q' r) w q)
    (herror : ∀ w q err, I w q → post w q (.error err)) (h : I w q) :
    (upsertUser u).Alone exec AnyEnv may post w q := by
  refine alone_attempt_bind (honce w q h) ?_
  rintro w₁ q₁ out ⟨h₁, hout⟩
  cases out with
  | ok a => exact alone_pure hout
  | error err =>
    refine alone_attempt_bind (m := fun w' q' _ => I w' q')
      (getUserByName_alone (hread w₁ q₁ h₁) fun x _ => hkeep w₁ q₁ x h₁) ?_
    intro w₂ q₂ present h₂
    cases present with
    | ok _ => exact (honce w₂ q₂ h₂).mono fun _ _ _ h => h.2
    | error _ => exact alone_throw (herror w₂ q₂ err h₂)

theorem upsertLocal_alone {u : User} (hu : u.source = .sourceLocal) :
    (upsertUser u).Alone exec AnyEnv (ApartWarrant name w₀ false) (fun _ _ _ => True) w q := by
  refine upsertUser_alone (I := fun _ _ => True) (fun _ _ _ => trivial) (fun _ _ _ _ => trivial)
    ?_ (fun _ _ _ _ => trivial) trivial
  intro w q _
  exact (upsertLocal_once hu).mono fun _ _ _ _ => ⟨trivial, trivial⟩

/-- **An account from outside** is stored over nothing, or over an account that is not a local
one. -/
theorem upsertForeign_once {u : User} (hu : u.source ≠ .sourceLocal)
    (h : KeepsApart name w₀ q → NotOwned name u.username w) :
    (upsertUserOnce u).Alone exec AnyEnv (ApartWarrant name w₀ b)
      (fun w' q' r => (KeepsApart name w₀ q' → NotOwned name u.username w') ∧
        ∀ a, r = .ok a → KeepsApart name w₀ q' → NotLocal w' a.id) w q := by
  -- Reading back what was stored.
  have hread {w : World} {q : Trace sig} {id : Nat}
      (h : KeepsApart name w₀ q → NotOwned name u.username w ∧ NotLocal w id) :
      (getUser id).Alone exec AnyEnv (ApartWarrant name w₀ b)
        (fun w' q' r => (KeepsApart name w₀ q' → NotOwned name u.username w') ∧
          ∀ a, r = .ok a → KeepsApart name w₀ q' → NotLocal w' a.id) w q := by
    refine Alone.mapResult (db_alone trivial ?_)
    intro e x w' hx
    refine ⟨fun hq => notOwned_step hx trivial (h hq.before).1, ?_⟩
    intro a ha hq
    rcases x with err | _ | a'
    · cases ha
    · cases ha
    · cases ha
      have hid : a.id = id := Table.key_of_get? (found_user hx)
      rw [hid]
      exact notLocal_step hx trivial (h hq.before).2
  refine alone_attempt_bind (m := fun w' q' r => (KeepsApart name w₀ q' →
    NotOwned name u.username w') ∧ ∃ x, LookedUp w' u.username x ∧ r = Store.row x)
    (getUserByName_alone trivial fun x hx => ⟨fun hq => h hq.before, x, hx, rfl⟩) ?_
  rintro w' q' r ⟨h', x, hx, rfl⟩
  rcases x with err | _ | v
  · have herr : err.isNotFound = false := hx
    show (if err.isNotFound = true then _ else throw err : Handler Go.Error User).Alone _ _ _ _ _ _
    rw [if_neg (by rw [herr]; exact Bool.false_ne_true)]
    exact alone_throw ⟨h', fun _ h => nomatch h⟩
  · have hfree (hq : KeepsApart name w₀ q') : sqlLower u.username ≠ sqlLower name := by
      intro hname
      obtain ⟨v, hv, hnamed⟩ := (h' hq).2 hname
      rw [hx v hv] at hnamed
      cases hnamed
    have hgentle : Gentle (.db (.insertUser { u with role := Store.nz u.role roleUser })) := hu
    refine Alone.bind (m := fun w₂ q₂ r => (KeepsApart name w₀ q₂ → NotOwned name u.username w₂) ∧
      ∀ id, r = .ok id → KeepsApart name w₀ q₂ → NotLocal w₂ id)
      (db_alone (fun hq => ⟨hx, .inr (hfree hq)⟩) ?_) ?_ fun _ _ _ h => ⟨h.1, fun _ h => nomatch h⟩
    · intro e x w₂ hexec
      refine ⟨fun hq => notOwned_step hexec hgentle (h' hq.before), ?_⟩
      rintro id rfl _
      -- The account that was just stored is there under its own number.
      refine notLocal_step hexec hgentle ?_
      intro r hr
      rw [Table.get?_eq_none_of_lt (by rw [inserted_id hexec]; exact Nat.lt_succ_self _)] at hr
      cases hr
    · intro w₂ q₂ id h₂
      exact hread fun hq => ⟨h₂.1 hq, h₂.2 id rfl hq⟩
  · have hnot (hq : KeepsApart name w₀ q') : NotLocal w' v.id := by
      intro r hr
      have hget : w'.users.get? v.id = some v := Table.get?_of_mem hx.1
      rw [hget] at hr
      cases hr
      exact (h' hq).1 v hx.1 hx.2
    refine Alone.bind (m := fun w₂ q₂ _ => KeepsApart name w₀ q₂ →
      NotOwned name u.username w₂ ∧ NotLocal w₂ v.id)
      (db_alone (fun hq => .inr (hnot hq)) ?_) ?_
      fun _ _ _ h => ⟨fun hq => (h hq).1, fun _ h => nomatch h⟩
    · intro e x w₂ hexec hq
      have hgentle : Gentle (.db (.updateUser v.id u.source (Store.nz u.displayName v.displayName)
        (Store.nz u.email v.email) (Store.nz u.role v.role))) := hu
      exact ⟨notOwned_step hexec hgentle (h' hq.before),
        notLocal_step hexec hgentle (hnot hq.before)⟩
    · intro w₂ q₂ _ h₂
      exact hread h₂

theorem upsertForeign_alone {u : User} (hu : u.source ≠ .sourceLocal)
    (h : KeepsApart name w₀ q → NotOwned name u.username w) :
    (upsertUser u).Alone exec AnyEnv (ApartWarrant name w₀ b)
      (fun w' q' r => ∀ a, r = .ok a → KeepsApart name w₀ q' → NotLocal w' a.id) w q := by
  refine upsertUser_alone (I := fun w q => KeepsApart name w₀ q → NotOwned name u.username w)
    (fun _ _ _ => trivial) (fun _ _ _ h hq => h hq.before) ?_ (fun _ _ _ _ _ h => nomatch h) h
  intro w q h
  exact upsertForeign_once hu h

/-! ## Signing in from outside -/

/-- What lets account `id` in is allowed. -/
def Lets (name : String) (w₀ w : World) (q : Trace sig) (id : Nat) : Prop :=
  KeepsApart name w₀ q → Identified q → NotLocal w id

/-- **An identity** that the call was told of is no local account, nor becomes one. -/
theorem syncDirectoryUser_alone {source : Source} {id : Identity} (hsource : source ≠ .sourceLocal)
    (hunique : UniqueNames w₀) (hw : w.users = w₀.users) (hid : ∃ x ∈ q, identified x = some id) :
    (syncDirectoryUser source id).Alone exec AnyEnv (ApartWarrant name w₀ b)
      (fun w' q' r => ∀ u, r = .ok u → Lets name w₀ w' q' u.id) w q := by
  obtain ⟨y, hy, hid⟩ := hid
  refine alone_attempt_bind (m := fun w' q' r => w'.users = w₀.users ∧ ∃ x,
    q' = q ++ [⟨.db (.selectUserByName id.username), x⟩] ∧ LookedUp w' id.username x ∧
      r = Store.row x)
    (getUserByName_alone trivial fun x hx => ⟨hw, x, rfl, hx, rfl⟩) ?_
  rintro w₁ q₁ existing ⟨hw₁, x, hq₁, hx, rfl⟩
  refine alone_failIf_bind (fun henabled => ?_) fun _ _ h => nomatch h
  -- The account of the name, if there is one, is not disabled: so it is not a local one.
  have hnot (hq : KeepsApart name w₀ q₁) : NotOwned name id.username w₁ := by
    have hy₁ : y ∈ q₁ := by
      rw [hq₁]
      exact List.mem_append_left _ hy
    obtain ⟨howned, hreserved⟩ := hq y hy₁ id hid
    constructor
    · intro v hv hnamed hlocal
      rw [hw₁] at hv
      obtain ⟨hdisabled, hread⟩ := howned v hv hnamed hlocal
      rcases x with err | _ | u
      · refine hread err ?_
        rw [hq₁]
        exact List.mem_append_right _ (List.mem_singleton_self _)
      · rw [← hw₁] at hv
        rw [hx v hv] at hnamed
        cases hnamed
      · obtain ⟨hu, hunamed⟩ := hx
        rw [hw₁] at hu
        have huv := hunique u hu v hv ((named_iff.mp hunamed).trans (named_iff.mp hnamed).symm)
        refine henabled ?_
        rw [huv]
        exact hdisabled
    · intro hname
      obtain ⟨v, hv, hnamed⟩ := hreserved hname
      rw [hw₁]
      exact ⟨v, hv, named_iff.mpr ((named_iff.mp hnamed).trans hname.symm)⟩
  refine Alone.bind (upsertForeign_alone hsource hnot) ?_ fun _ _ _ _ _ h => nomatch h
  intro w₂ q₂ u h₂
  have htouch : (touchLogin u.id).Uses (fun s => Within [.touchLogin] s ∧ Gentle s) := by
    refine Uses.bind (host_uses ⟨trivial, trivial⟩) fun t => ?_
    exact db_uses ⟨List.mem_singleton_self _, trivial⟩
  have hkept : (touchLogin u.id).Alone exec AnyEnv (ApartWarrant name w₀ b)
      (fun w' q' _ => KeepsApart name w₀ q' → NotLocal w' u.id) w₂ q₂ := by
    refine Prog.Uses.alone (J := fun w' q' => KeepsApart name w₀ q' → NotLocal w' u.id) htouch
      ?_ ?_ (h₂ u rfl)
    · intro w q s _ hs
      exact warrant_of_quiet (l := [.touchLogin]) (by simp) (fun _ => by simp) hs.1
    · intro e w q s x w' hs h hexec hq
      exact notLocal_step hexec hs.2 (h hq.before)
  refine alone_attempt_bind hkept ?_
  intro w₃ q₃ _ h₃
  refine alone_pure ?_
  rintro u' hu' hq _
  cases hu'
  exact h₃ hq

/-- Nothing was stored yet, and nobody outside was asked. -/
def Outset (w₀ w : World) (q : Trace sig) : Prop := w.users = w₀.users ∧ Unidentified q

omit [Bcrypt] in
/-- The statements that leave the accounts as they are. -/
theorem users_done (pick : Nat) (w : World) {l : List Effect}
    (h : ∀ k ∈ [Effect.insertUser, .updateUser, .touchLogin] ++ changing, k ∉ l) {s : DbStmt}
    (hs : Within l (.db s)) : (w.exec pick s).2.users = w.users := by
  cases s with
  | insertUser u => exact absurd hs (h .insertUser (by simp))
  | updateUser id source d m r => exact absurd hs (h .updateUser (by simp))
  | setUserRole id role => exact absurd hs (h .setUserRole (by simp))
  | setUserDisabled id d => exact absurd hs (h .setUserDisabled (by simp))
  | setUserPassword id h' => exact absurd hs (h .setUserPassword (by simp))
  | deleteUser id => exact absurd hs (h .deleteUser (by simp))
  | touchLogin id t => exact absurd hs (h .touchLogin (by simp))
  | insertSession t =>
    simp only [World.exec]
    split <;> rfl
  | insertAPIToken t =>
    simp only [World.exec]
    split <;> rfl
  | _ => rfl

theorem users_step {e : Env} {w' : World} {l : List Effect}
    (h : ∀ k ∈ [Effect.insertUser, .updateUser, .touchLogin] ++ changing, k ∉ l) {s : Stmt}
    {x : s.Ans} (hs : Within l s) (hx : exec e w s = some (x, w')) : w'.users = w.users := by
  cases s with
  | host s => rw [(exec_host hx).2]
  | db s =>
    rw [(exec_db hx).2]
    rcases e.fault.apply_cases w (w.exec e.pick s) with ⟨_, _, hw⟩ | ⟨_, hw, _⟩
    · rw [hw]
    · rw [hw]
      exact users_done e.pick w h hs

/-- What changes no account and asks nobody outside. -/
theorem outset_alone {l : List Effect}
    (h : ∀ k ∈ [Effect.insertUser, .updateUser, .touchLogin] ++ changing, k ∉ l)
    (hask : .askDirectory ∉ l) (hlet : ∀ k ∈ letting, k ∉ l) {x : Handler ε α}
    (hx : x.Uses (Within l)) (hq : Outset w₀ w q) :
    x.Alone exec AnyEnv (ApartWarrant name w₀ b) (fun w' q' _ => Outset w₀ w' q') w q := by
  refine Prog.Uses.alone (J := Outset w₀) hx ?_ ?_ hq
  · intro w q s _ hs
    refine warrant_of_quiet hlet (fun _ k hk => h k ?_) hs
    exact List.mem_append_right _ hk
  · intro e w q s x w' hs hq hexec
    exact ⟨(users_step h hs hexec).trans hq.1,
      unidentified_snoc hq.2 (identified_of_within hask x hs)⟩

omit [Bcrypt] in
theorem Unidentified.lets (hq : Unidentified q) (id : Nat) : Lets name w₀ w q id :=
  fun _ hid => absurd hid hq.not_identified

/-- **A sign-in** lets somebody in whom the password of a local account, or an identity, is of. -/
theorem authenticate_alone (m : Manager) (username password : String) (hunique : UniqueNames w₀)
    (hq : Outset w₀ w q) :
    (m.authenticate username password).Alone exec AnyEnv (ApartWarrant name w₀ b)
      (fun w' q' r => ∀ u, r = .ok u → Lets name w₀ w' q' u.id) w q := by
  refine alone_failIf_bind (fun _ => ?_) fun _ _ h => nomatch h
  refine Alone.bind (outset_alone (l := []) (by simp) (by simp) (by simp)
    (localAccount_uses m _) hq) ?_ fun _ _ _ _ _ h => nomatch h
  intro w₁ q₁ account h₁
  cases account with
  | some u =>
    refine Prog.Alone.mono ?_ (unasked_alone (l := [.checkPassword, .touchLogin]) (by simp)
      (by simp) (by simp) (fun _ => by simp) (authenticateLocal_uses (by simp) u password) h₁.2)
    intro w' q' r hq' a _
    exact hq'.lets a.id
  | none =>
    show (if m.ldapEnabled = true then authenticateLDAP (Go.trimSpace username) password
      else throw errInvalidCredentials : Handler Go.Error User).Alone _ _ _ _ _ _
    by_cases hldap : m.ldapEnabled = true
    · rw [if_pos hldap]
      refine Alone.bind (m := fun w' q' r => w' = w₁ ∧ ∃ answer, r = .ok answer ∧
        q' = q₁ ++ [⟨.host (.ldapAuthenticate (Go.trimSpace username) password), answer⟩])
        (host_alone trivial fun answer => ⟨rfl, answer, rfl, rfl⟩) ?_
        fun _ _ _ _ _ h => nomatch h
      rintro w₂ q₂ answer ⟨rfl, answer', hanswer, hq₂⟩
      cases hanswer
      refine alone_ofExcept_bind ?_ fun _ _ _ h => nomatch h
      rintro id rfl
      have hmem : (⟨.host (.ldapAuthenticate (Go.trimSpace username) password), .ok id⟩ :
          (s : Stmt) × s.Ans) ∈ q₂ := by
        rw [hq₂]
        exact List.mem_append_right _ (List.mem_singleton_self _)
      exact syncDirectoryUser_alone (by decide) hunique h₁.1 ⟨_, hmem, rfl⟩
    · rw [if_neg hldap]
      exact alone_throw fun _ h => nomatch h

/-! ## Letting somebody in -/

/-- What a call asks once it is known who signs in: besides what changes no account, it stores a
session or a token of that account. -/
def LetsIn (id : Nat) (s : Stmt) : Prop :=
  Within [.actAs, .clearAuthFailures] s ∨ (∃ t, s = .db (.insertSession t) ∧ t.userID = id) ∨
    ∃ t, s = .db (.insertAPIToken t) ∧ t.userID = id

theorem letsIn_alone {id : Nat} {x : Handler ε α} (hx : x.Uses (LetsIn id))
    (h : Lets name w₀ w q id) :
    x.Alone exec AnyEnv (ApartWarrant name w₀ b) (fun _ _ _ => True) w q := by
  refine Prog.Alone.mono (fun _ _ _ _ => trivial)
    (Prog.Uses.alone (J := fun w q => Lets name w₀ w q id) hx ?_ ?_ h)
  · rintro w q s h (hs | ⟨t, rfl, ht⟩ | ⟨t, rfl, ht⟩)
    · exact warrant_of_quiet (l := [.actAs, .clearAuthFailures]) (by simp) (fun _ => by simp) hs
    · intro hq hid
      rw [ht]
      exact h hq hid
    · intro hq hid
      rw [ht]
      exact h hq hid
  · intro e w q s x w' hs h hexec hq hid
    have hthen {l : List Effect} (hs : Within l s)
        (h₁ : ∀ k ∈ [Effect.insertUser, .updateUser, .touchLogin] ++ changing, k ∉ l)
        (h₂ : .askDirectory ∉ l) : NotLocal w' id := by
      unfold NotLocal
      rw [users_step h₁ hs hexec]
      refine h hq.before ?_
      obtain ⟨y, hy, hsome⟩ := hid
      rcases List.mem_append.mp hy with hy | hy
      · exact ⟨y, hy, hsome⟩
      · rw [List.mem_singleton.mp hy, identified_of_within h₂ x hs] at hsome
        cases hsome
    rcases hs with hs | ⟨t, rfl, _⟩ | ⟨t, rfl, _⟩
    · exact hthen hs (by simp) (by simp)
    · exact hthen (l := [.insertSession]) (List.mem_singleton_self _) (by simp) (by simp)
    · exact hthen (l := [.insertAPIToken]) (List.mem_singleton_self _) (by simp) (by simp)

omit [Bcrypt] in
theorem letsIn_quiet {id : Nat} {x : Handler ε α}
    (hx : x.Uses (Within [.actAs, .clearAuthFailures])) : x.Uses (LetsIn id) :=
  hx.mono fun _ => .inl

omit [Bcrypt] in
theorem createSession_letsIn (m : Manager) (u : User) : (m.createSession u).Uses (LetsIn u.id) := by
  have hrandom : (host .randomToken : Handler Go.Error _).Uses (LetsIn u.id) :=
    letsIn_quiet (host_uses trivial)
  refine hrandom.bind fun answer => (uses_ofExcept answer).bind ?_
  refine fun tok => (letsIn_quiet now_uses).bind fun t => ?_
  exact (db_uses (.inr (.inl ⟨_, rfl, rfl⟩))).bind fun _ => uses_pure _

omit [Bcrypt] in
theorem issueAPIToken_letsIn (u : User) (name role : String) (ttl : Duration) :
    (issueAPIToken u name role ttl).Uses (LetsIn u.id) := by
  have hrandom : (host .randomToken : Handler Go.Error _).Uses (LetsIn u.id) :=
    letsIn_quiet (host_uses trivial)
  have hcreate (t : APIToken) (ht : t.userID = u.id) : (createAPIToken t).Uses (LetsIn u.id) := by
    refine (letsIn_quiet now_uses).bind fun createdAt => ?_
    refine (db_uses (.inr (.inr ⟨_, rfl, ht⟩))).bind fun id => ?_
    exact (letsIn_quiet (db_uses (s := .selectAPIToken id) trivial)).mapResult _
  refine (uses_failIf _ _).bind fun _ => (uses_failIf _ _).bind fun _ => ?_
  refine hrandom.bind fun a => (uses_ofExcept a).bind fun body => ?_
  refine hrandom.bind fun b => (uses_ofExcept b).bind fun pre => ?_
  refine (letsIn_quiet (expiry_uses ttl)).bind fun expiresAt => ?_
  exact (hcreate _ rfl).bind fun saved => uses_pure _

omit [Bcrypt] in
theorem finishLogin_letsIn (s : Server) (u : User) (r : Request) :
    (s.finishLogin u r).Uses (LetsIn u.id) := by
  refine (letsIn_quiet (host_uses (by simp [Within, Stmt.effect?]))).bind fun _ => ?_
  refine (createSession_letsIn s.auth u).attempt.bind fun answer => ?_
  cases answer with
  | error err => exact uses_throw _
  | ok token => exact (letsIn_quiet (audit_uses _ _ _ _ _)).bind fun _ => uses_pure _

attribute [local irreducible] Prog.Alone

/-- What is allowed whatever was asked before. -/
theorem quiet_alone {l : List Effect} (h : ∀ k ∈ letting, k ∉ l)
    (hb : b = true → ∀ k ∈ changing, k ∉ l) {x : Handler ε α} (hx : x.Uses (Within l)) :
    x.Alone exec AnyEnv (ApartWarrant name w₀ b) (fun _ _ _ => True) w q :=
  Prog.Alone.mono (fun _ _ _ _ => trivial) (Prog.Uses.alone (J := fun _ _ => True) hx
    (fun _ _ _ _ hs => warrant_of_quiet h hb hs) (fun _ _ _ _ _ _ _ _ _ => trivial) trivial)

theorem handleLoginSubmit_alone (s : Server) (username password : String) (r : Request)
    (hunique : UniqueNames w₀) (hq : Outset w₀ w q) :
    (s.handleLoginSubmit username password r).Alone exec AnyEnv (ApartWarrant name w₀ true)
      (fun _ _ _ => True) w q := by
  refine alone_failIf_bind (fun _ => ?_) fun _ => trivial
  refine Alone.bind (outset_alone (l := [.recentAuthFailures]) (by simp) (by simp) (by simp)
    (loginThrottle_uses (by simp) _ _) hq) ?_ fun _ _ _ _ => trivial
  intro w₁ q₁ wait h₁
  by_cases hwait : 0 < wait
  · rw [if_pos hwait]
    exact quiet_alone (l := []) (by simp) (by simp)
      ((audit_uses _ _ _ _ _).bind fun _ => uses_throw _)
  rw [if_neg hwait]
  refine alone_attempt_bind (authenticate_alone s.auth _ password hunique h₁) ?_
  intro w₂ q₂ answer h₂
  cases answer with
  | error err =>
    refine quiet_alone (l := [.insertAuthFailure]) (by simp) (by simp) ?_
    refine (loginFailed_uses (by simp) _ _).bind fun _ => ?_
    exact (audit_uses _ _ _ _ _).bind fun _ => uses_throw _
  | ok u =>
    refine letsIn_alone ?_ (h₂ u rfl)
    refine (letsIn_quiet (loginSucceeded_uses (by simp) _ _)).bind fun _ => ?_
    exact finishLogin_letsIn s u r

theorem apiAuthLogin_alone (s : Server) (body : Except String LoginRequest) (r : Request)
    (hunique : UniqueNames w₀) (hq : Outset w₀ w q) :
    (s.apiAuthLogin body r).Alone exec AnyEnv (ApartWarrant name w₀ true)
      (fun _ _ _ => True) w q := by
  refine alone_ofExcept_bind ?_ fun _ _ => trivial
  intro body _
  refine alone_failIf_bind (fun _ => ?_) fun _ => trivial
  refine alone_failIf_bind (fun _ => ?_) fun _ => trivial
  refine Alone.bind (outset_alone (l := [.recentAuthFailures]) (by simp) (by simp) (by simp)
    (loginThrottle_uses (by simp) _ _) hq) ?_ fun _ _ _ _ => trivial
  intro w₁ q₁ wait h₁
  by_cases hwait : 0 < wait
  · rw [if_pos hwait]
    exact quiet_alone (l := []) (by simp) (by simp)
      ((audit_uses _ _ _ _ _).bind fun _ => uses_throw _)
  rw [if_neg hwait]
  refine alone_ofExcept_bind ?_ fun _ _ => trivial
  intro ttl _
  refine alone_attempt_bind (authenticate_alone s.auth _ body.password hunique h₁) ?_
  intro w₂ q₂ answer h₂
  cases answer with
  | error err =>
    refine quiet_alone (l := [.insertAuthFailure]) (by simp) (by simp) ?_
    refine (loginFailed_uses (by simp) _ _).bind fun _ => ?_
    exact (audit_uses _ _ _ _ _).bind fun _ => uses_throw _
  | ok u =>
    refine letsIn_alone ?_ (h₂ u rfl)
    refine (letsIn_quiet (loginSucceeded_uses (by simp) _ _)).bind fun _ => ?_
    refine (letsIn_quiet (host_uses (by simp [Within, Stmt.effect?]))).bind fun _ => ?_
    refine ((issueAPIToken_letsIn u _ _ _).mapError _).bind fun minted => ?_
    refine (letsIn_quiet (audit_uses _ _ _ _ _)).bind fun _ => ?_
    exact (letsIn_quiet (audit_uses _ _ _ _ _)).bind fun _ => uses_pure _

theorem handleOIDCCallback_alone (s : Server) (c : Callback) (r : Request)
    (hunique : UniqueNames w₀) (hw : w.users = w₀.users) :
    (s.handleOIDCCallback c r).Alone exec AnyEnv (ApartWarrant name w₀ true)
      (fun _ _ _ => True) w q := by
  refine alone_failIf_bind (fun _ => ?_) fun _ => trivial
  cases c.expected with
  | none => exact alone_throw trivial
  | some expected =>
    refine alone_failIf_bind (fun _ => ?_) fun _ => trivial
    refine alone_failIf_bind (fun _ => ?_) fun _ => trivial
    refine alone_failIf_bind (fun _ => ?_) fun _ => trivial
    refine Alone.bind (m := fun w' q' r => w' = w ∧ ∃ answer, r = .ok answer ∧
      q' = q ++ [⟨.host (.oidcExchange c.code expected.2), answer⟩])
      (host_alone trivial fun answer => ⟨rfl, answer, rfl, rfl⟩) ?_ fun _ _ _ _ => trivial
    rintro w₂ q₂ answer ⟨rfl, answer', hanswer, hq₂⟩
    cases hanswer
    cases answer with
    | error err =>
      exact quiet_alone (l := []) (by simp) (by simp)
        ((audit_uses _ _ _ _ _).bind fun _ => uses_throw _)
    | ok id =>
      have hmem : (⟨.host (.oidcExchange c.code expected.2), .ok id⟩ :
          (s : Stmt) × s.Ans) ∈ q₂ := by
        rw [hq₂]
        exact List.mem_append_right _ (List.mem_singleton_self _)
      refine alone_attempt_bind
        (syncDirectoryUser_alone (b := true) (by decide) hunique hw ⟨_, hmem, rfl⟩) ?_
      intro w₃ q₃ synced h₃
      cases synced with
      | error err => exact alone_throw trivial
      | ok u => exact letsIn_alone (finishLogin_letsIn s u r) (h₃ u rfl)

/-! ## Calls of administrators and of the process -/

theorem createLocalUser_alone (username password displayName email role : String) :
    (createLocalUser username password displayName email role).Alone exec AnyEnv
      (ApartWarrant name w₀ false) (fun _ _ _ => True) w q := by
  refine alone_failIf_bind (fun _ => ?_) fun _ => trivial
  refine alone_ofExcept_bind ?_ fun _ _ => trivial
  intro _ _
  refine alone_attempt_bind (m := fun _ _ _ => True)
    (getUserByName_alone trivial fun _ _ => trivial) ?_
  intro w₁ q₁ found _
  refine alone_failIf_bind (fun _ => ?_) fun _ => trivial
  refine Alone.bind (quiet_alone (l := []) (by simp) (by simp) (hashPassword_uses password)) ?_
    fun _ _ _ _ => trivial
  intro w₂ q₂ hash _
  exact upsertLocal_alone rfl

theorem ensureLocalAdmin_alone (la : LocalAdmin) :
    (ensureLocalAdmin la).Alone exec AnyEnv (ApartWarrant name w₀ false)
      (fun _ _ _ => True) w q := by
  show (if la.username = "" ∨ la.passwordHash = "" then pure () else _ :
    Handler Go.Error Unit).Alone _ _ _ _ _ _
  by_cases hnone : la.username = "" ∨ la.passwordHash = ""
  · rw [if_pos hnone]
    exact alone_pure trivial
  rw [if_neg hnone]
  refine alone_attempt_bind (m := fun _ _ _ => True)
    (getUserByName_alone trivial fun _ _ => trivial) ?_
  intro w₁ q₁ found _
  cases found with
  | error err =>
    show (if err.isNotFound = true then _ else throw err : Handler Go.Error Unit).Alone _ _ _ _ _ _
    by_cases herr : err.isNotFound = true
    · rw [if_pos herr]
      refine Alone.bind (upsertLocal_alone rfl) ?_ fun _ _ _ _ => trivial
      intro w₂ q₂ _ _
      exact alone_pure trivial
    · rw [if_neg herr]
      exact alone_throw trivial
  | ok u =>
    have hx : (do
        (if u.passHash ≠ la.passwordHash then setUserPassword u.id la.passwordHash else pure ())
        (if u.role ≠ roleAdmin then setUserRole u.id roleAdmin else pure ()) :
        Handler Go.Error Unit).Uses (Within [.setUserPassword, .setUserRole]) := by
      refine Uses.bind (uses_ite (fun _ => db_uses (by simp [Within, Stmt.effect?]))
        fun _ => uses_pure ()) fun _ => ?_
      exact uses_ite (fun _ => db_uses (by simp [Within, Stmt.effect?])) fun _ => uses_pure ()
    exact quiet_alone (by simp) (by simp) hx

/-- The effects of a call that signs nobody in and makes no account. -/
abbrev unasking : List Effect :=
  [.setUserRole, .setUserDisabled, .setUserPassword, .deleteUser, .insertSession, .deleteSession,
    .insertAPIToken, .touchAPIToken, .revokeAPIToken, .purgeAuthFailures, .checkPassword, .actAs]

theorem unasking_alone {x : Handler ε α} (hx : x.Uses (Within unasking)) (hq : Unidentified q) :
    x.Alone exec AnyEnv (ApartWarrant name w₀ false) (fun _ _ _ => True) w q :=
  Prog.Alone.mono (fun _ _ _ _ => trivial)
    (unasked_alone (b := false) (by simp) (by simp) (by simp) (by simp) hx hq)

theorem command_alone (m : Manager) (actor : String) (command : Command) (hq : Unidentified q) :
    (command.run m actor).Alone exec AnyEnv (ApartWarrant name w₀ false)
      (fun _ _ _ => True) w q := by
  cases command with
  | userAdd body =>
    refine Alone.bind (createLocalUser_alone _ _ _ _ _) ?_ fun _ _ _ _ => trivial
    intro w₁ q₁ u _
    exact quiet_alone (l := []) (by simp) (by simp) (audit_uses _ _ _ _ _)
  | userRole username role =>
    refine unasking_alone ((getUserByName_uses _).bind fun _ => (uses_failIf _ _).bind ?_) hq
    intro _
    exact Uses.bind (db_uses (by simp [Within, Stmt.effect?])) fun _ => audit_uses _ _ _ _ _
  | userPasswd username password =>
    refine unasking_alone ((getUserByName_uses _).bind fun _ => ?_) hq
    exact (setPassword_uses (by simp) m _ _).bind fun _ => audit_uses _ _ _ _ _
  | userDisable username enable =>
    refine unasking_alone ((getUserByName_uses _).bind fun _ => ?_) hq
    refine Uses.bind (db_uses (by simp [Within, Stmt.effect?])) fun _ => ?_
    exact (endSessions_uses (by simp) _ _).bind fun _ => audit_uses _ _ _ _ _
  | userDelete username =>
    refine unasking_alone ((getUserByName_uses _).bind fun _ => ?_) hq
    exact (deleteUser_uses (by simp) _).bind fun _ => audit_uses _ _ _ _ _
  | tokenCreate owner name role n =>
    refine unasking_alone (Uses.bind ((getUserByName_uses _).mapError _) fun u => ?_) hq
    refine (uses_failIf _ _).bind fun _ => ?_
    refine Uses.bind (host_uses (by simp [Within, Stmt.effect?])) fun _ => ?_
    exact (issueAPIToken_uses (by simp) u _ _ _).bind fun _ => audit_uses _ _ _ _ _
  | tokenRevoke id =>
    refine unasking_alone ?_ hq
    simp only [Command.run]
    cases pathNumber id with
    | none => exact uses_throw _
    | some n =>
      exact (revokeAPIToken_uses (by simp) n).bind fun _ => audit_uses _ _ _ _ _

theorem answering_alone {may : World → Trace sig → Stmt → Prop} {x : Handler Reply Reply}
    (hx : x.Alone exec AnyEnv may (fun _ _ _ => True) w q) :
    (answering x).Alone exec AnyEnv may (fun _ _ _ => True) w q := by
  refine Prog.Alone.bind hx ?_
  intro w' q' r _
  cases r <;> exact Prog.alone_pure trivial

theorem ending_alone {may : World → Trace sig → Stmt → Prop} {x : Handler Go.Error Unit}
    (hx : x.Alone exec AnyEnv may (fun _ _ _ => True) w q) :
    (ending x).Alone exec AnyEnv may (fun _ _ _ => True) w q := by
  refine Prog.Alone.bind hx ?_
  intro w' q' r _
  cases r <;> exact Prog.alone_pure trivial

/-- A handler of the API that runs alone behind its check. -/
theorem apiAuth_alone [Go.Runtime] {handler : User → ApiHandler} (adminOnly : Bool) (r : Request)
    (hh : ∀ u w q, (handler u).Alone exec AnyEnv (ApartWarrant name w₀ false)
      (fun _ _ _ => True) w q) :
    (apiAuth handler adminOnly r).Alone exec AnyEnv (ApartWarrant name w₀ false)
      (fun _ _ _ => True) w q := by
  refine Alone.bind (quiet_alone (l := entering) (by simp) (by simp)
    (apiCaller_uses (by simp) r)) ?_ fun _ _ _ _ => trivial
  rintro w₁ q₁ ⟨u, c⟩ _
  refine alone_failIf_bind (fun _ => ?_) fun _ => trivial
  refine Alone.bind (quiet_alone (l := entering) (by simp) (by simp)
    (host_uses (by simp [Within, Stmt.effect?]))) ?_ fun _ _ _ _ => trivial
  intro w₂ q₂ _ _
  exact Alone.mapResult (hh u w₂ q₂)

/-- A page of an administrator that runs alone behind its check. -/
theorem requireAdmin_alone {next : User → Page} (r : Request)
    (hn : ∀ u w q, (next u).Alone exec AnyEnv (ApartWarrant name w₀ false)
      (fun _ _ _ => True) w q) :
    (requireAdmin next r).Alone exec AnyEnv (ApartWarrant name w₀ false)
      (fun _ _ _ => True) w q := by
  refine Alone.bind (quiet_alone (l := entering) (by simp) (by simp)
    (userFromRequest_uses r)) ?_ fun _ _ _ _ => trivial
  intro w₁ q₁ found _
  cases found with
  | none => exact alone_throw trivial
  | some u =>
    refine alone_failIf_bind (fun _ => ?_) fun _ => trivial
    refine Alone.bind (quiet_alone (l := entering) (by simp) (by simp)
      (host_uses (by simp [Within, Stmt.effect?]))) ?_ fun _ _ _ _ => trivial
    intro w₂ q₂ _ _
    exact alone_failIf_bind (fun _ => hn u w₂ q₂) fun _ => trivial

/-- **Every call**, told of identities apart, makes no local account but by its name, and lets
nobody in as one whom an identity is of. -/
theorem serve_apart [Go.Runtime] (c : Call) (hunique : UniqueNames w) :
    c.serve.Alone exec AnyEnv (ApartWarrant name w c.op.signsIn) (fun _ _ _ => True) w [] := by
  have hq : Unidentified ([] : Trace sig) := fun _ h => nomatch h
  have hunasking {x : Handler Reply Reply} (hx : x.Uses (Within unasking)) :
      (answering x).Alone exec AnyEnv (ApartWarrant name w false) (fun _ _ _ => True) w [] :=
    answering_alone (unasking_alone hx hq)
  obtain ⟨s, r, op⟩ := c
  cases op with
  | api adminOnly => exact hunasking (apiAuth_uses (by simp) (fun _ => uses_pure _) adminOnly r)
  | page => exact hunasking (requireUser_uses (by simp) (fun _ => uses_pure _) r)
  | apiTokenList => exact hunasking (apiAuth_uses (by simp) apiTokenList_uses false r)
  | apiTokenCreate body =>
    refine hunasking (apiAuth_uses (by simp) (fun u => ?_) false r)
    refine (uses_ofExcept _).bind fun body => (uses_failIf _ _).bind fun _ => ?_
    refine ((issueAPIToken_uses (by simp) u _ _ _).mapError _).bind fun _ => ?_
    exact (audit_uses _ _ _ _ _).bind fun _ => uses_pure _
  | apiTokenRevoke path =>
    exact hunasking (apiAuth_uses (by simp) (apiTokenRevoke_uses (by simp) path) false r)
  | apiUserList => exact hunasking (apiAuth_uses (by simp) apiUserList_uses true r)
  | apiUserCreate body =>
    refine answering_alone (apiAuth_alone true r fun u w q => ?_)
    refine alone_ofExcept_bind ?_ fun _ _ => trivial
    intro body _
    refine Alone.bind (m := fun _ _ _ => True)
      (Alone.mapResult (createLocalUser_alone _ _ _ _ _)) ?_ fun _ _ _ _ => trivial
    intro w' q' _ _
    exact quiet_alone (l := []) (by simp) (by simp)
      ((audit_uses _ _ _ _ _).bind fun _ => uses_pure _)
  | apiUserPatch ref body =>
    exact hunasking (apiAuth_uses (by simp) (apiUserPatch_uses (by simp) s ref body r) true r)
  | apiUserDelete ref =>
    exact hunasking (apiAuth_uses (by simp) (apiUserDelete_uses (by simp) ref r) true r)
  | apiAuthLogin body =>
    exact answering_alone (Alone.mapResult (apiAuthLogin_alone s body r hunique ⟨rfl, hq⟩))
  | handleLoginSubmit username password =>
    exact answering_alone (handleLoginSubmit_alone s username password r hunique ⟨rfl, hq⟩)
  | handleOIDCCallback c => exact answering_alone (handleOIDCCallback_alone s c r hunique rfl)
  | handleLogout => exact hunasking (handleLogout_uses (by simp) r)
  | handleTokenCreate body =>
    refine hunasking (requireUser_uses (by simp) (fun u => ?_) r)
    refine ((issueAPIToken_uses (by simp) u _ _ _).mapError _).bind fun _ => ?_
    exact (audit_uses _ _ _ _ _).bind fun _ => uses_pure _
  | handleTokenRevoke path =>
    exact hunasking (requireUser_uses (by simp) (handleTokenRevoke_uses (by simp) path r) r)
  | handleUserCreate body =>
    refine answering_alone (requireAdmin_alone r fun u w q => ?_)
    refine Alone.bind (m := fun _ _ _ => True)
      (Alone.mapResult (createLocalUser_alone _ _ _ _ _)) ?_ fun _ _ _ _ => trivial
    intro w' q' _ _
    exact quiet_alone (l := []) (by simp) (by simp)
      ((audit_uses _ _ _ _ _).bind fun _ => uses_pure _)
  | handleUserRole path role =>
    exact hunasking (requireAdmin_uses (by simp) (handleUserRole_uses (by simp) path role r) r)
  | handleUserDisable path disabled =>
    exact hunasking (requireAdmin_uses (by simp)
      (handleUserDisable_uses (by simp) path disabled r) r)
  | handleUserDelete path =>
    exact hunasking (requireAdmin_uses (by simp) (handleUserDelete_uses (by simp) path r) r)
  | handleChangePassword current next =>
    exact hunasking (requireUser_uses (by simp)
      (handleChangePassword_uses (by simp) s current next r) r)
  | start la =>
    refine ending_alone (Alone.bind (m := fun _ _ _ => True)
      (Alone.mapResult (ensureLocalAdmin_alone la)) ?_ fun _ _ _ _ => trivial)
    intro w' q' _ _
    exact quiet_alone (l := [.deleteSession]) (by simp) (by simp)
      ((purgeExpiredSessions_uses (by simp)).attempt.bind fun _ => uses_pure ())
  | purgeExpired =>
    exact ending_alone (unasking_alone (purgeExpired_uses (by simp)) hq)
  | cli la actor command =>
    refine ending_alone (Alone.bind (m := fun _ q' _ => Unidentified q') ?_ ?_
      fun _ _ _ _ => trivial)
    · refine Prog.Alone.mono (fun _ _ _ h => h.2) (Prog.Alone.and_keeps (ensureLocalAdmin_alone la)
        (ensureLocalAdmin_uses (l := [.insertUser, .updateUser, .setUserRole, .setUserPassword])
          (by simp) la) ?_ hq)
      intro q s x hq hs
      exact unidentified_snoc hq (identified_of_within (by simp) x hs)
    · intro w' q' _ hq'
      exact command_alone s.auth actor command hq'

end Walk

end Goca.Auth
