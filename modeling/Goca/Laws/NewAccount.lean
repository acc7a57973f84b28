import Goca.Laws.Takeover

/-!
# New local accounts

The existence check of `CreateLocalUser` and the write of `UpsertUser` are separate statements, and
the write refreshes whatever account has the name by then. So a creation keeps its promises as long
as the creations keep out of each other's way (`Orderly`): no two of one name, in any spelling, are
past their checks at once, no check fails where somebody has the name, and the name is written as
the sign-in reads it, without white space around it.

What a creation may write is read off its text (`Creation.Warrant`, `Creation.Checked`). From its
check on nobody else comes by its name (`clear_upto`), so what it finds later is its own and what
it inserts is new (`Unrivalled`), and whoever inserted an account owns it from then on
(`owns_of_inserted`).
-/

set_option autoImplicit false

namespace Goca.Auth

open Interleave (Act Pool Prog Trace own)
open Interleave.Act
open Sql (Table)

/-! ## Creations -/

/-- What `CreateLocalUser` is called with. -/
structure Creation where
  username : String
  password : String
  displayName : String := ""
  email : String := ""
  role : String := roleUser
  deriving Repr, DecidableEq

/-- The call. -/
def Creation.create (c : Creation) : Handler Go.Error User :=
  createLocalUser c.username c.password c.displayName c.email c.role

/-- The role that is stored. -/
def Creation.granted (c : Creation) : String := if c.role ≠ roleAdmin then roleUser else c.role

/-- The account as `UpsertUser` is given it. -/
def Creation.account (c : Creation) (hash : String) : User where
  username := c.username
  source := .sourceLocal
  displayName := c.displayName
  email := c.email
  role := c.granted
  passHash := hash

/-- The trace has `x` as an answer to `s`. -/
def Heard (q : Trace sig) (s : Stmt) (x : s.Ans) : Prop := (⟨s, x⟩ : (s : Stmt) × s.Ans) ∈ q

section

variable [Bcrypt] (m : Manager) (w : World) (cs : List Creation) (moves : Pool.Schedule Env)

/-- Creations over one database, none of which has begun. -/
abbrev creating : Pool sig (Except Go.Error User) World := .init w (cs.map fun c => c.create.run)

/-- The pool after the first `n` moves of a schedule. -/
abbrev createdUpto (n : Nat) : Pool sig (Except Go.Error User) World :=
  (creating w cs).upto exec moves n

/-- At move `i` creation `t` asks `s` and is answered `x`. -/
abbrev Creates (i t : Nat) (e : Env) (s : Stmt) (x : s.Ans) : Prop :=
  Pool.AskedAt exec (creating w cs) moves i t e s x

/-- **A creation signs in and replaces nobody**: whoever it returned signs in with exactly the name
and the password it was given, and no account ever has another source, role or password. -/
structure SoundCreations : Prop where
  admits : ∀ (i t : Nat) (c : Creation) (u : User), i ≤ moves.length → cs[t]? = some c →
    (createdUpto w cs moves i).threads[t]? = some (Prog.pure (.ok u)) →
      Accepts m (createdUpto w cs moves i).world c.username c.password u.id
  keeps : ∀ (i j id : Nat) (r : User), i ≤ j → j ≤ moves.length →
    (createdUpto w cs moves i).world.users.get? id = some r →
      ∃ r', (createdUpto w cs moves j).world.users.get? id = some r' ∧
        r'.source = r.source ∧ r'.role = r.role ∧ r'.passHash = r.passHash

/-- At move `i` the `INSERT` of creation `t` takes effect, and makes account `id`. -/
def InsertsAt (i t id : Nat) : Prop :=
  ∃ e u x, Creates w cs moves i t e (.db (.insertUser u)) x ∧
    (createdUpto w cs moves i).world.users.get? id = none ∧
    ((createdUpto w cs moves (i + 1)).world.users.get? id).isSome = true

/-- Creation `t` has inserted account `id` by move `i`. -/
def Inserted (t id i : Nat) : Prop := ∃ j < i, InsertsAt w cs moves j t id

/-- The password of a creation has been hashed. -/
def Creation.Hashed (c : Creation) (q : Trace sig) : Prop :=
  ∃ hash, Heard q (.host (.hashPassword c.password)) (.ok hash)

/-- Somebody has a name, in any case. -/
def World.Taken (w : World) (name : String) : Prop :=
  ∃ u ∈ w.users.rows, User.named name u = true

/-- Creation `t` has begun by move `i`: it has asked something. -/
def Begun (i t : Nat) : Prop := ∃ ev ∈ (createdUpto w cs moves i).history, ev.thread = t

/-- Creation `t` has something to ask at move `i`. -/
def Asks (i t : Nat) : Prop := ((createdUpto w cs moves i).next? t).isSome = true

/-- Creation `t` is under way at move `i`: it has begun and is not at its end. -/
def UnderWay (i t : Nat) : Prop := Begun w cs moves i t ∧ Asks w cs moves i t

/-- **A run in which the creations keep out of each other's way**, as the state and the schedule
have it. The first statement of a creation is its existence check. -/
structure Orderly : Prop where
  /-- Where somebody has the name at a check, the check does not fail. -/
  answered : ∀ i t c e, moves[i]? = some (t, e) → cs[t]? = some c → Asks w cs moves i t →
    ¬ Begun w cs moves i t → (createdUpto w cs moves i).world.Taken c.username → e.fault = .none
  /-- Where nobody has the name at a check, there is no white space around it. -/
  trimmed : ∀ i t c e, moves[i]? = some (t, e) → cs[t]? = some c → Asks w cs moves i t →
    ¬ Begun w cs moves i t → ¬ (createdUpto w cs moves i).world.Taken c.username →
      Go.trimSpace c.username = c.username
  /-- No two creations of one name, in any case, are past their checks and not at their ends. -/
  apart : ∀ i t u c d, i ≤ moves.length → cs[t]? = some c → cs[u]? = some d → t ≠ u →
    UnderWay w cs moves i t → UnderWay w cs moves i u →
      Store.sqlLower c.username ≠ Store.sqlLower d.username

/-- What a creation finds under its name after its existence check is an account that it inserted
itself, and where its `INSERT` takes effect, nobody has the name, whatever the case. -/
structure Unrivalled : Prop where
  finds : ∀ i t c e u, cs[t]? = some c →
    Creates w cs moves i t e (.db (.selectUserByName c.username)) (.ok (some u)) →
      c.Hashed (own t (createdUpto w cs moves i).history) → Inserted w cs moves t u.id i
  inserts : ∀ i t c id, cs[t]? = some c → InsertsAt w cs moves i t id →
    ∀ u ∈ (createdUpto w cs moves i).world.users.rows, User.named c.username u = false

/-- What package bcrypt documents: a hash is not empty, and is one of its own password. -/
structure LawfulBcrypt : Prop where
  compare_generate : ∀ password salt hash,
    Bcrypt.generate password salt = .ok hash → Bcrypt.compare hash password = true
  generate_ne : ∀ password salt, Bcrypt.generate password salt ≠ .ok ""

end

/-! ## What a creation may ask -/

section Text

variable {c : Creation} {q : Trace sig}

/-- After the existence check the name was looked up, and `u` was found. -/
def Creation.Sought (c : Creation) (q : Trace sig) (u : User) : Prop :=
  ∃ q₁, q₁ ++ [⟨.db (.selectUserByName c.username), .ok (some u)⟩] <+: q ∧ c.Hashed q₁

/-- The last thing that was done is a look-up of the name that found nobody. -/
def Creation.Missed (c : Creation) (q : Trace sig) : Prop :=
  ∃ q₀ x err, q = q₀ ++ [⟨.db (.selectUserByName c.username), x⟩] ∧ Store.row x = .error err ∧
    err.isNotFound = true

/-- The existence check has not found anybody. -/
def Creation.Passed (c : Creation) (q : Trace sig) : Prop :=
  ∃ x, [⟨.db (.selectUserByName c.username), x⟩] <+: q ∧ ∀ u, x ≠ .ok (some u)

/-- A statement is the existence check, or comes after it. -/
def Creation.Checked (c : Creation) (q : Trace sig) (s : Stmt) : Prop :=
  (q = [] ∧ s = .db (.selectUserByName c.username)) ∨ c.Passed q

/-- The statements of a creation: it looks up, hashes, inserts its own account where it has just
found nobody, and refreshes what it found under its name. -/
def Creation.Warrant (c : Creation) (q : Trace sig) : Stmt → Prop
  | .db (.selectUser _) => True
  | .db (.selectUserByName name) => name = c.username
  | .db (.insertUser u) => c.Missed q ∧ ∃ hash,
      Heard q (.host (.hashPassword c.password)) (.ok hash) ∧ u = c.account hash
  | .db (.updateUser id source _ _ role) =>
      source = .sourceLocal ∧ role = c.granted ∧ ∃ u, c.Sought q u ∧ u.id = id
  | .host (.hashPassword _) => True
  | _ => False

/-- A creation has made the account `u`: it read it after it had inserted it or found it. -/
def Creation.Made (c : Creation) (q : Trace sig) (u : User) : Prop :=
  ∃ id, Heard q (.db (.selectUser id)) (.ok (some u)) ∧
    ((∃ v, Heard q (.db (.insertUser v)) (.ok id)) ∨
      ∃ v, c.Sought q v ∧ v.id = id)

theorem Creation.Sought.mono {q' : Trace sig} {u : User} (h : c.Sought q u) (hq : q <+: q') :
    c.Sought q' u := by
  obtain ⟨q₁, hq₁, hhashed⟩ := h
  exact ⟨q₁, hq₁.trans hq, hhashed⟩

theorem Creation.Missed.ne_nil (h : c.Missed q) : q ≠ [] := by
  obtain ⟨q₀, x, err, rfl, -⟩ := h
  exact List.append_ne_nil_of_right_ne_nil _ (List.cons_ne_nil _ _)

/-- The role of a new account is one of the two. -/
theorem Creation.nz_granted (c : Creation) (default : String) :
    Store.nz c.granted default = c.granted := by
  have hname : Go.trimSpace c.granted ≠ "" := by
    unfold Creation.granted
    by_cases hrole : c.role ≠ roleAdmin
    · rw [if_pos hrole]
      decide
    · rw [if_neg hrole, not_not.mp hrole]
      decide
  exact if_neg hname

theorem heard_snoc (q : Trace sig) (s : Stmt) (x : s.Ans) : Heard (q ++ [⟨s, x⟩]) s x :=
  List.mem_append_right _ (List.mem_singleton_self _)

theorem Heard.mono {q' : Trace sig} {s : Stmt} {x : s.Ans} (h : Heard q s x) (hq : q <+: q') :
    Heard q' s x := hq.subset h

/-- A look-up by the name of the creation, with what was found on the trace. -/
theorem lookup_traced {ok : Trace sig → User → Prop}
    (h : ∀ u, ok (q ++ [⟨.db (.selectUserByName c.username), .ok (some u)⟩]) u) :
    (getUserByName c.username).Traced c.Warrant ok q := by
  have hasked : (db (.selectUserByName c.username)).Traced c.Warrant
      (fun q' a => ∀ u, a = some u → ok q' u) q := by
    refine db_traced (s := .selectUserByName c.username) rfl ?_
    rintro _ u rfl
    exact h u
  exact row_traced hasked

theorem any_lookup_traced :
    (getUserByName c.username).Traced c.Warrant (fun _ _ => True) q :=
  lookup_traced fun _ => trivial

/-- The account that `UpsertUser` returns was read at its end. -/
theorem read_traced {id : Nat}
    (h : (∃ v, Heard q (.db (.insertUser v)) (.ok id)) ∨ ∃ v, c.Sought q v ∧ v.id = id) :
    (getUser id).Traced c.Warrant c.Made q := by
  have hasked : (db (.selectUser id)).Traced c.Warrant
      (fun q' a => ∀ u, a = some u → c.Made q' u) q := by
    refine db_traced (s := .selectUser id) trivial ?_
    rintro _ u rfl
    refine ⟨id, heard_snoc _ _ _, ?_⟩
    rcases h with ⟨v, hv⟩ | ⟨v, hv, hid⟩
    · exact .inl ⟨v, hv.mono (List.prefix_append _ _)⟩
    · exact .inr ⟨v, hv.mono (List.prefix_append _ _), hid⟩
  exact row_traced hasked

/-- A look-up by the name of the creation, with what became of it. -/
theorem lookup_attempt_traced {ε : Type} {f : Except Go.Error User → Handler ε User}
    {ok : Trace sig → User → Prop}
    (hfound : ∀ u, (f (.ok u)).Traced c.Warrant ok
      (q ++ [⟨.db (.selectUserByName c.username), .ok (some u)⟩]))
    (hmissed : ∀ x err, Store.row x = .error err → (f (.error err)).Traced c.Warrant ok
      (q ++ [⟨.db (.selectUserByName c.username), x⟩])) :
    ((getUserByName c.username).attempt >>= f).Traced c.Warrant ok q := by
  refine Prog.traced_ask.mpr ⟨rfl, fun x => ?_⟩
  rcases x with err | _ | u
  · exact hmissed _ err rfl
  · exact hmissed _ _ rfl
  · exact hfound u

/-- **One attempt of `UpsertUser`** with the account of the creation. -/
theorem upsertOnce_traced {hash : String}
    (hhash : Heard q (.host (.hashPassword c.password)) (.ok hash)) :
    (upsertUserOnce (c.account hash)).Traced c.Warrant c.Made q := by
  refine lookup_attempt_traced (fun v => ?_) fun x err hx => ?_
  · have hsought : c.Sought (q ++ [⟨.db (.selectUserByName c.username), .ok (some v)⟩]) v :=
      ⟨q, List.prefix_rfl, hash, hhash⟩
    refine Traced.bind (m := fun q' _ => c.Sought q' v) ?_ ?_
    · refine db_traced (s := .updateUser _ _ _ _ _) ?_ fun _ =>
        hsought.mono (List.prefix_append _ _)
      exact ⟨rfl, c.nz_granted _, v, hsought, rfl⟩
    · intro q₂ _ _ hsought₂
      exact read_traced (.inr ⟨v, hsought₂, rfl⟩)
  · refine traced_ite (fun hnone => ?_) fun _ => traced_throw
    refine Traced.bind (m := fun q' id => ∃ v, Heard q' (.db (.insertUser v)) (.ok id)) ?_ ?_
    · refine db_traced (s := .insertUser _) ?_ fun id => ⟨_, heard_snoc _ _ _⟩
      have hrole : Store.nz (c.account hash).role roleUser = (c.account hash).role :=
        c.nz_granted _
      rw [hrole]
      exact ⟨⟨q, x, err, rfl, hx, hnone⟩, hash, hhash.mono (List.prefix_append _ _), rfl⟩
    · intro q₂ id _ hinserted
      exact read_traced (.inl hinserted)

/-- **`UpsertUser`** with the account of the creation. -/
theorem upsert_traced {hash : String}
    (hhash : Heard q (.host (.hashPassword c.password)) (.ok hash)) :
    (upsertUser (c.account hash)).Traced c.Warrant c.Made q := by
  refine Traced.bind (m := fun q' r => q <+: q' ∧ ∀ u, r = .ok u → c.Made q' u) ?_ ?_
  · exact (upsertOnce_traced hhash).attempt fun q' r hq hr => ⟨hq, hr⟩
  · rintro q₁ r _ ⟨hq₁, hr⟩
    cases r with
    | ok u => exact traced_pure (hr u rfl)
    | error err =>
      refine Traced.bind (m := fun q' _ => q <+: q') ?_ ?_
      · exact any_lookup_traced.attempt fun q' r hq _ => hq₁.trans hq
      · intro q₂ r _ hq₂
        cases r with
        | ok _ => exact upsertOnce_traced (hhash.mono hq₂)
        | error _ => exact traced_throw

/-- The hash of the password is on the trace. -/
theorem hashed_traced : (hashPassword c.password).Traced c.Warrant
    (fun q' hash => Heard q' (.host (.hashPassword c.password)) (.ok hash)) q := by
  refine Traced.bind (m := fun q' answer => Heard q' (.host (.hashPassword c.password)) answer)
    (host_traced (s := .hashPassword _) trivial fun a => heard_snoc _ _ _) ?_
  intro q' answer _ hanswer
  refine traced_ofExcept ?_
  rintro hash rfl
  exact hanswer

/-- **What a creation asks**, and what it rests on when it succeeds. -/
theorem create_traced (c : Creation) :
    c.create.Traced c.Warrant (fun q u => c.Made q u ∧ Go.trimSpace c.username ≠ "" ∧
      c.password ≠ "") [] := by
  refine Traced.bind (m := fun _ _ => Go.trimSpace c.username ≠ "") (traced_failIf id) ?_
  intro q₀ _ _ hname
  refine Traced.bind (m := fun _ _ => c.password ≠ "") (traced_ofExcept ?_) ?_
  · rintro _ hvalid hempty
    rw [hempty] at hvalid
    cases hvalid
  · intro q₁ _ _ hpassword
    refine Traced.bind (m := fun _ _ => True) ?_ ?_
    · exact any_lookup_traced.attempt fun _ _ _ _ => trivial
    · intro q₂ found _ _
      refine Traced.bind (m := fun _ _ => True) (traced_failIf fun _ => trivial) ?_
      intro q₃ _ _ _
      refine hashed_traced.bind ?_
      intro q₄ hash _ hhash
      exact (upsert_traced hhash).mono fun _ _ hmade => ⟨hmade, hname, hpassword⟩

/-- **The existence check comes first**, and a creation goes on only where it found nobody. -/
theorem create_passed (c : Creation) :
    c.create.Traced c.Checked (fun _ _ => True) [] := by
  refine Traced.bind (m := fun q _ => q = []) (traced_failIf fun _ => rfl) ?_
  rintro _ - - rfl
  refine Traced.bind (m := fun q _ => q = []) (traced_ofExcept fun _ _ => rfl) ?_
  rintro _ - - rfl
  refine Prog.traced_ask.mpr ⟨.inl ⟨rfl, rfl⟩, fun x => ?_⟩
  have hrest (hx : ∀ u, x ≠ .ok (some u)) {k : Handler Go.Error User} :
      k.Traced c.Checked (fun _ _ => True) [⟨.db (.selectUserByName c.username), x⟩] :=
    (Prog.traced_within k.run _).mono (fun q s hq => .inr ⟨x, hq, hx⟩) fun _ _ _ _ _ => trivial
  rcases x with err | _ | u
  · exact hrest fun _ h => by cases h
  · exact hrest fun _ h => by cases h
  · exact traced_throw

end Text

/-! ## Runs -/

section Runs

variable [Bcrypt] {w : World} {cs : List Creation} {moves : Pool.Schedule Env} {i t : Nat}
  {c : Creation}

theorem Inserted.mono {id j : Nat} (h : Inserted w cs moves t id i) (hij : i ≤ j) :
    Inserted w cs moves t id j := by
  obtain ⟨k, hk, hinserts⟩ := h
  exact ⟨k, Nat.lt_of_lt_of_le hk hij, hinserts⟩

/-- What the text of every creation promises holds in every run. -/
theorem createdUpto_keeps {may : Creation → Trace sig → Stmt → Prop}
    {ok : Creation → Trace sig → User → Prop}
    (h : ∀ c : Creation, c.create.Traced (may c) (ok c) []) (w : World) (cs : List Creation)
    (moves : Pool.Schedule Env) (i : Nat) :
    (createdUpto w cs moves i).Traced (fun t q s => ∀ c, cs[t]? = some c → may c q s)
      (fun t q r => ∀ c u, cs[t]? = some c → r = .ok u → ok c q u) := by
  refine (Pool.run_traced Pool.lawful_init (Pool.traced_init ?_) (moves.take i)).2
  intro t p hp
  rw [List.getElem?_map, Option.map_eq_some_iff] at hp
  obtain ⟨c, hc, rfl⟩ := hp
  refine Prog.Traced.mono ?_ ?_ (h c)
  · intro q s hs c' hc'
    rw [← Option.some.inj (hc.symm.trans hc')]
    exact hs
  · intro q r hr c' u hc' hu
    rw [← Option.some.inj (hc.symm.trans hc')]
    exact hr u hu

/-- Every creation asks what its text warrants, and rests on it when it succeeds. -/
theorem createdUpto_traced (w : World) (cs : List Creation) (moves : Pool.Schedule Env) (i : Nat) :
    (createdUpto w cs moves i).Traced (fun t q s => ∀ c, cs[t]? = some c → c.Warrant q s)
      (fun t q r => ∀ c u, cs[t]? = some c → r = .ok u →
        c.Made q u ∧ Go.trimSpace c.username ≠ "" ∧ c.password ≠ "") :=
  createdUpto_keeps create_traced w cs moves i

/-- What a creation asks next is its existence check, or comes after it. -/
theorem checked_of_next {s : Stmt} (hc : cs[t]? = some c)
    (h : (createdUpto w cs moves i).next? t = some s) :
    c.Checked (own t (createdUpto w cs moves i).history) s :=
  Pool.next_allowed (createdUpto_keeps create_passed w cs moves i) h c hc

/-- What is asked is asked by one of the creations, within its warrant. -/
theorem creation_of_asked {e : Env} {s : Stmt} {x : s.Ans} (h : Creates w cs moves i t e s x) :
    ∃ c, cs[t]? = some c ∧ c.Warrant (own t (createdUpto w cs moves i).history) s := by
  obtain ⟨k, hk⟩ := Pool.next?_eq_some.mp h.next
  obtain ⟨hlt, _⟩ := List.getElem?_eq_some_iff.mp hk
  have hlen : t < cs.length := by
    rw [Pool.upto, Pool.length_threads_run] at hlt
    exact hlt.trans_eq (List.length_map _)
  refine ⟨cs[t], List.getElem?_eq_getElem hlen, ?_⟩
  exact Pool.next_allowed (createdUpto_traced w cs moves i) h.next _
    (List.getElem?_eq_getElem hlen)

/-- What is on the trace of a creation was asked at an earlier move. -/
theorem asked_of_heard (hi : i ≤ moves.length) {s : Stmt} {x : s.Ans}
    (h : Heard (own t (createdUpto w cs moves i).history) s x) :
    ∃ j e, j < i ∧ Creates w cs moves j t e s x :=
  Pool.history_origin hi rfl (Interleave.mem_own.mp h)

/-- What a creation sought and found is an account that it inserted itself. -/
theorem inserted_of_sought (hrun : Unrivalled w cs moves) (hi : i ≤ moves.length)
    (hc : cs[t]? = some c) {u : User}
    (h : c.Sought (own t (createdUpto w cs moves i).history) u) :
    Inserted w cs moves t u.id i := by
  obtain ⟨q, hq, hhashed⟩ := h
  obtain ⟨j, e, hj, hasked, hown⟩ := Pool.own_origin hi rfl hq
  rw [← hown] at hhashed
  exact (hrun.finds j t c e u hc hasked hhashed).mono (Nat.le_of_lt hj)

/-- An `INSERT` that answered with an id made the account. -/
theorem insertsAt_of_ok {e : Env} {u : User} {id : Nat}
    (h : Creates w cs moves i t e (.db (.insertUser u)) (.ok id)) :
    InsertsAt w cs moves i t id := by
  refine ⟨e, u, _, h, ?_⟩
  obtain ⟨hans, hworld⟩ := exec_db h.exec
  have hdone := Store.Fault.apply_ok hans.symm
  rw [hworld, hdone.2]
  have hok := hdone.1
  simp only [World.exec] at hok ⊢
  split at hok
  · cases hok
  next hfree =>
    cases hok
    rw [if_neg hfree, Table.get?_insert, if_pos rfl]
    exact ⟨Table.get?_eq_none_of_lt (Nat.lt_succ_self _), rfl⟩

/-- **What a move does to the row of an account**: nothing, or its creation inserts it, or refreshes
it after it had found it under its name. -/
theorem creation_step {e : Env} {s : Stmt} {x : s.Ans} (h : Creates w cs moves i t e s x)
    (hc : cs[t]? = some c) (id : Nat) :
    (createdUpto w cs moves (i + 1)).world.users.get? id =
        (createdUpto w cs moves i).world.users.get? id ∨
      (InsertsAt w cs moves i t id ∧ id = (createdUpto w cs moves i).world.users.seq + 1 ∧
        ∃ hash, Heard (own t (createdUpto w cs moves i).history)
            (.host (.hashPassword c.password)) (.ok hash) ∧
          (createdUpto w cs moves (i + 1)).world.users.get? id =
            some { c.account hash with id, lastLogin := none }) ∨
      ∃ r displayName email u, c.Sought (own t (createdUpto w cs moves i).history) u ∧
        u.id = id ∧ (createdUpto w cs moves i).world.users.get? id = some r ∧
        (createdUpto w cs moves (i + 1)).world.users.get? id =
          some { r with source := .sourceLocal, displayName, email, role := c.granted } := by
  obtain ⟨c', hc', hwarrant⟩ := creation_of_asked h
  cases hc.symm.trans hc'
  have hstep := user_step h.exec id
  generalize hold : (createdUpto w cs moves i).world.users.get? id = old at hstep ⊢
  generalize hnew : (createdUpto w cs moves (i + 1)).world.users.get? id = new at hstep ⊢
  cases hstep with
  | same _ => exact .inl rfl
  | @inserted u hstmt hnext =>
    subst hstmt
    obtain ⟨-, hash, hmem, rfl⟩ := hwarrant
    exact .inr (.inl ⟨⟨e, _, x, h, hold, by rw [hnew]; rfl⟩, hnext, hash, hmem, rfl⟩)
  | @updated r source displayName email role hstmt =>
    subst hstmt
    obtain ⟨rfl, rfl, u, hsought, hid⟩ := hwarrant
    exact .inr (.inr ⟨r, displayName, email, u, hsought, hid, rfl, rfl⟩)
  | role hstmt =>
    subst hstmt
    cases hwarrant
  | disabled hstmt =>
    subst hstmt
    cases hwarrant
  | password hstmt =>
    subst hstmt
    cases hwarrant
  | touched hstmt =>
    subst hstmt
    cases hwarrant
  | deleted _ hstmt =>
    subst hstmt
    cases hwarrant

/-! ### Creations that keep out of each other's way -/

theorem begun_iff : Begun w cs moves i t ↔ own t (createdUpto w cs moves i).history ≠ [] := by
  unfold Begun own
  rw [Ne, List.map_eq_nil_iff, List.filter_eq_nil_iff]
  simp

theorem asks_of_next {s : Stmt} (h : (createdUpto w cs moves i).next? t = some s) :
    Asks w cs moves i t := by
  rw [Asks, h]
  rfl

/-- A creation that goes on has asked whether somebody has its name, and was not told of anybody. -/
theorem UnderWay.passed (h : UnderWay w cs moves i t) (hc : cs[t]? = some c) :
    c.Passed (own t (createdUpto w cs moves i).history) := by
  obtain ⟨s, hs⟩ := Option.isSome_iff_exists.mp h.2
  exact (checked_of_next hc hs).resolve_left fun hfirst => begun_iff.mp h.1 hfirst.1

/-- **The existence check**: nobody has the name of a creation that goes on after it. -/
theorem not_taken_of_check (hrun : Orderly w cs moves) (hc : cs[t]? = some c) {e : Env}
    {x : Except Go.Error (Option User)}
    (hasked : Creates w cs moves i t e (.db (.selectUserByName c.username)) x)
    (hfirst : ¬ Begun w cs moves i t) (hx : ∀ u, x ≠ .ok (some u)) :
    ¬ (createdUpto w cs moves i).world.Taken c.username := by
  intro htaken
  have hfault := hrun.answered i t c e hasked.move hc (asks_of_next hasked.next) hfirst htaken
  obtain ⟨-, hlooked⟩ := exec_selectUserByName hasked.exec
  obtain ⟨u, hu, hnamed⟩ := htaken
  rcases x with err | _ | v
  · have hanswer := (exec_db hasked.exec).1
    rw [hfault] at hanswer
    cases hanswer
  · exact absurd ((hlooked u hu).symm.trans hnamed) Bool.false_ne_true
  · exact hx v rfl

/-- What a creation that is under way can count on: whoever has its name, it has inserted itself,
and nobody has the name where it has just found nobody. -/
structure Creation.Clear (c : Creation) (w : World) (cs : List Creation)
    (moves : Pool.Schedule Env) (t i : Nat) : Prop where
  mine : ∀ r ∈ (createdUpto w cs moves i).world.users.rows, User.named c.username r = true →
    Inserted w cs moves t r.id i
  missed : c.Missed (own t (createdUpto w cs moves i).history) →
    ¬ (createdUpto w cs moves i).world.Taken c.username

/-- The first move of a creation. -/
theorem clear_of_check (hrun : Orderly w cs moves) (hc : cs[t]? = some c) {e : Env} {s : Stmt}
    {x : s.Ans} (hasked : Creates w cs moves i t e s x) (hfirst : ¬ Begun w cs moves i t)
    (h : UnderWay w cs moves (i + 1) t) : c.Clear w cs moves t (i + 1) := by
  have hnil : own t (createdUpto w cs moves i).history = [] := by
    by_contra hne
    exact hfirst (begun_iff.mpr hne)
  obtain ⟨y, hy, hnobody⟩ := h.passed hc
  rw [hasked.own, hnil, List.nil_append] at hy
  have hfree : ¬ (createdUpto w cs moves (i + 1)).world.Taken c.username := by
    cases List.cons_prefix_cons.mp hy |>.1
    have hworld := (exec_selectUserByName hasked.exec).1
    rw [hworld]
    exact not_taken_of_check hrun hc hasked hfirst hnobody
  exact ⟨fun r hr hnamed => absurd ⟨r, hr, hnamed⟩ hfree, fun _ => hfree⟩

/-- Where a row of a name comes from at a move: it was there, or the creation that moves inserts
it. -/
theorem named_origin {e : Env} {s : Stmt} {x : s.Ans} {u : Nat} {d : Creation} {name : String}
    (hasked : Creates w cs moves i u e s x) (hd : cs[u]? = some d) {r : User}
    (hr : r ∈ (createdUpto w cs moves (i + 1)).world.users.rows)
    (hnamed : User.named name r = true) :
    (∃ v ∈ (createdUpto w cs moves i).world.users.rows,
      v.id = r.id ∧ User.named name v = true) ∨
    InsertsAt w cs moves i u r.id ∧ Store.sqlLower d.username = Store.sqlLower name ∧
      d.Missed (own u (createdUpto w cs moves i).history) := by
  obtain ⟨d', hd', hwarrant⟩ := creation_of_asked hasked
  cases hd.symm.trans hd'
  rcases user_origin hasked.exec hr with ⟨v, hv, hid, hname, -⟩ | ⟨n, rfl, hname, -, hid⟩
  · refine .inl ⟨v, hv, hid, ?_⟩
    rw [named_iff, hname]
    exact named_iff.mp hnamed
  · obtain ⟨hmissed, hash, -, rfl⟩ := hwarrant
    refine .inr ⟨⟨e, _, x, hasked, ?_, ?_⟩, ?_, hmissed⟩
    · rw [hid]
      exact Table.get?_eq_none_of_lt (Nat.lt_succ_self _)
    · rw [show r.id = Sql.Keyed.key r from rfl, Table.get?_of_mem hr]
      rfl
    · rw [← named_iff.mp hnamed, hname]
      rfl

/-- A later move of a creation of its own. -/
theorem clear_of_own (hc : cs[t]? = some c) {e : Env} {s : Stmt} {x : s.Ans}
    (hasked : Creates w cs moves i t e s x) (h : c.Clear w cs moves t i) :
    c.Clear w cs moves t (i + 1) where
  mine := by
    intro r hr hnamed
    rcases named_origin hasked hc hr hnamed with ⟨v, hv, hid, hv'⟩ | ⟨hinserts, -⟩
    · rw [← hid]
      exact (h.mine v hv hv').mono (Nat.le_succ i)
    · exact ⟨i, Nat.lt_succ_self i, hinserts⟩
  missed := by
    rintro ⟨q₀, y, err, hq, hy, hnotFound⟩ ⟨u, hu, hnamed⟩
    rw [hasked.own] at hq
    obtain ⟨-, hlast⟩ := List.append_inj' hq rfl
    cases hlast
    obtain ⟨hworld, hlooked⟩ := exec_selectUserByName hasked.exec
    rw [hworld] at hu
    rcases y with err' | _ | v
    · cases hy
      exact absurd (hlooked.symm.trans hnotFound) Bool.false_ne_true
    · exact absurd ((hlooked u hu).symm.trans hnamed) Bool.false_ne_true
    · cases hy

/-- A move of another creation. -/
theorem clear_of_other (hrun : Orderly w cs moves) (hi : i ≤ moves.length) {u : Nat}
    {d : Creation} (hc : cs[t]? = some c) (hd : cs[u]? = some d) (hne : u ≠ t)
    {e : Env} {s : Stmt} {x : s.Ans} (hasked : Creates w cs moves i u e s x)
    (h' : UnderWay w cs moves i t) (h : c.Clear w cs moves t i) :
    c.Clear w cs moves t (i + 1) := by
  have hold : ∀ r ∈ (createdUpto w cs moves (i + 1)).world.users.rows,
      User.named c.username r = true → ∃ v ∈ (createdUpto w cs moves i).world.users.rows,
        v.id = r.id ∧ User.named c.username v = true := by
    intro r hr hnamed
    refine (named_origin hasked hd hr hnamed).resolve_right ?_
    rintro ⟨-, hname, hmissed⟩
    exact hrun.apart i u t d c hi hd hc hne
      ⟨begun_iff.mpr hmissed.ne_nil, asks_of_next hasked.next⟩ h' hname
  constructor
  · intro r hr hnamed
    obtain ⟨v, hv, hid, hv'⟩ := hold r hr hnamed
    rw [← hid]
    exact (h.mine v hv hv').mono (Nat.le_succ i)
  · rintro hmissed ⟨r, hr, hnamed⟩
    rw [hasked.own_of_ne hne] at hmissed
    obtain ⟨v, hv, -, hv'⟩ := hold r hr hnamed
    exact h.missed hmissed ⟨v, hv, hv'⟩

/-- **Creations that are under way are clear of each other**, in every run that keeps them apart. -/
theorem clear_upto (hrun : Orderly w cs moves) (hi : i ≤ moves.length) (hc : cs[t]? = some c)
    (h : UnderWay w cs moves i t) : c.Clear w cs moves t i := by
  induction i with
  | zero =>
    obtain ⟨⟨ev, hev, -⟩, -⟩ := h
    cases hev
  | succ i ih =>
    have hi' : i ≤ moves.length := Nat.le_of_succ_le hi
    obtain hsame | ⟨s, x, hasked, -⟩ := Pool.upto_asked exec (creating w cs) hi
    · have hupto : createdUpto w cs moves (i + 1) = createdUpto w cs moves i := hsame
      unfold UnderWay Begun Asks at h
      rw [hupto] at h
      obtain ⟨hmine, hmissed⟩ := ih hi' h
      constructor
      · intro r hr hnamed
        rw [hupto] at hr
        exact (hmine r hr hnamed).mono (Nat.le_succ i)
      · rw [hupto]
        exact hmissed
    · obtain ⟨d, hd, -⟩ := creation_of_asked hasked
      by_cases hmover : moves[i].1 = t
      · rw [hmover] at hasked
        by_cases hfirst : Begun w cs moves i t
        · exact clear_of_own hc hasked (ih hi' ⟨hfirst, asks_of_next hasked.next⟩)
        · exact clear_of_check hrun hc hasked hfirst h
      · have h' : UnderWay w cs moves i t := by
          obtain ⟨hbegun, hasks⟩ := h
          constructor
          · rw [begun_iff, ← hasked.own_of_ne hmover]
            exact begun_iff.mp hbegun
          · unfold Asks at hasks ⊢
            rw [← hasked.next?_of_ne hmover]
            exact hasks
        exact clear_of_other hrun hi' hc hd hmover hasked h' (ih hi' h')

/-- **A run that keeps the creations apart is one without rivals.** -/
theorem unrivalled_of_orderly (hrun : Orderly w cs moves) : Unrivalled w cs moves where
  finds := by
    intro i t c e u hc hasked hhashed
    have hi : i ≤ moves.length := Nat.le_of_lt (List.getElem?_eq_some_iff.mp hasked.move).1
    obtain ⟨hash, hheard⟩ := hhashed
    have hclear := clear_upto hrun hi hc
      ⟨begun_iff.mpr (List.ne_nil_of_mem hheard), asks_of_next hasked.next⟩
    obtain ⟨hmem, hnamed⟩ := found_userByName hasked.exec
    exact hclear.mine u hmem hnamed
  inserts := by
    intro i t c id hc hinserts u hu
    obtain ⟨e, v, x, hasked, -⟩ := hinserts
    have hi : i ≤ moves.length := Nat.le_of_lt (List.getElem?_eq_some_iff.mp hasked.move).1
    obtain ⟨c', hc', hmissed, -⟩ := creation_of_asked hasked
    cases hc.symm.trans hc'
    have hclear := clear_upto hrun hi hc
      ⟨begun_iff.mpr hmissed.ne_nil, asks_of_next hasked.next⟩
    by_contra hnamed
    exact hclear.missed hmissed ⟨u, hu, (Bool.not_eq_false _).mp hnamed⟩

/-- A name that is inserted has no white space around it. -/
theorem trimmed_of_inserts (hrun : Orderly w cs moves) (hc : cs[t]? = some c) {id : Nat}
    (h : InsertsAt w cs moves i t id) : Go.trimSpace c.username = c.username := by
  obtain ⟨e, v, x, hasked, -⟩ := h
  have hi : i ≤ moves.length := Nat.le_of_lt (List.getElem?_eq_some_iff.mp hasked.move).1
  obtain ⟨c', hc', hmissed, -⟩ := creation_of_asked hasked
  cases hc.symm.trans hc'
  have hunderWay : UnderWay w cs moves i t :=
    ⟨begun_iff.mpr hmissed.ne_nil, asks_of_next hasked.next⟩
  obtain ⟨y, hy, hnobody⟩ := hunderWay.passed hc
  obtain ⟨j, e', hj, hcheck, hnil⟩ := Pool.own_origin (q := []) hi rfl hy
  have hfirst : ¬ Begun w cs moves j t := fun hbegun => begun_iff.mp hbegun hnil
  exact hrun.trimmed j t c e' hcheck.move hc (asks_of_next hcheck.next) hfirst
    (not_taken_of_check hrun hc hcheck hfirst hnobody)

/-! ### The accounts of the creations -/

/-- A row that a creation answers for: it is of its name, local, enabled, and has its password. -/
structure Creation.IsRow (c : Creation) (r : User) : Prop where
  username : r.username = c.username
  source : r.source = .sourceLocal
  role : r.role = c.granted
  enabled : r.disabled = false
  hash_ne : r.passHash ≠ ""
  hash : Bcrypt.compare r.passHash c.password = true

/-- Account `id` is the one that the creation made, and the only one of its name. -/
structure Creation.Owns (c : Creation) (id : Nat) (w : World) : Prop where
  row : ∃ r, w.users.get? id = some r ∧ c.IsRow r
  only : ∀ v ∈ w.users.rows, User.named c.username v = true → v.id = id

/-- What a creation inserts is a row that it answers for. -/
theorem isRow_account (hbcrypt : LawfulBcrypt) (hi : i ≤ moves.length) {hash : String}
    (h : Heard (own t (createdUpto w cs moves i).history) (.host (.hashPassword c.password))
      (.ok hash)) (id : Nat) :
    c.IsRow { c.account hash with id, lastLogin := none } := by
  obtain ⟨j, e, _, hasked⟩ := asked_of_heard hi h
  have hgenerated : Bcrypt.generate c.password e.token = .ok hash := (exec_host hasked.exec).1.symm
  refine ⟨rfl, rfl, rfl, rfl, ?_, hbcrypt.compare_generate _ _ _ hgenerated⟩
  rintro rfl
  exact hbcrypt.generate_ne _ _ hgenerated

/-- The account that a move inserts is the only one of its name. -/
theorem owns_inserted (hbcrypt : LawfulBcrypt) (hrun : Unrivalled w cs moves)
    (hi : i ≤ moves.length) (hc : cs[t]? = some c) {id : Nat} (h : InsertsAt w cs moves i t id) :
    c.Owns id (createdUpto w cs moves (i + 1)).world := by
  have hfree := hrun.inserts i t c id hc h
  obtain ⟨e, u, x, hasked, hnone, hsome⟩ := h
  have hnew : id = (createdUpto w cs moves i).world.users.seq + 1 ∧ ∃ hash,
      Heard (own t (createdUpto w cs moves i).history) (.host (.hashPassword c.password))
          (.ok hash) ∧
        (createdUpto w cs moves (i + 1)).world.users.get? id =
          some { c.account hash with id, lastLogin := none } := by
    rcases creation_step hasked hc id with hsame | ⟨_, hnext⟩ | ⟨r, _, _, _, _, _, hr, _⟩
    · rw [hsame, hnone] at hsome
      cases hsome
    · exact hnext
    · rw [hnone] at hr
      cases hr
  obtain ⟨hid, hash, hmem, hrow⟩ := hnew
  refine ⟨⟨_, hrow, isRow_account hbcrypt hi hmem id⟩, ?_⟩
  intro v hv hnamed
  have hget := Table.get?_of_mem hv
  rcases creation_step hasked hc (Sql.Keyed.key v) with
    hsame | ⟨_, hnext, _⟩ | ⟨r, _, _, _, _, _, hr, hrefreshed⟩
  · rw [hsame] at hget
    exact absurd ((hfree v (Table.mem_of_get? hget)).symm.trans hnamed) Bool.false_ne_true
  · exact hnext.trans hid.symm
  · rw [hget] at hrefreshed
    have hname : User.named c.username r = true := by
      rw [Option.some.inj hrefreshed] at hnamed
      exact hnamed
    exact absurd ((hfree r (Table.mem_of_get? hr)).symm.trans hname) Bool.false_ne_true

/-- What a creation refreshes has the source and the role that it refreshes it with. -/
theorem refreshed_same (hrun : Unrivalled w cs moves) (hi : i ≤ moves.length)
    (hc : cs[t]? = some c)
    (howns : ∀ id, Inserted w cs moves t id i → c.Owns id (createdUpto w cs moves i).world)
    {u r : User} (hu : c.Sought (own t (createdUpto w cs moves i).history) u)
    (hr : (createdUpto w cs moves i).world.users.get? u.id = some r) : c.IsRow r := by
  obtain ⟨r', hr', hrow⟩ := (howns u.id (inserted_of_sought hrun hi hc hu)).row
  rw [Option.some.inj (hr.symm.trans hr')]
  exact hrow

/-- **A move keeps the account of a creation**, and that nobody else has its name. -/
theorem owns_kept {e : Env} {s : Stmt} {x : s.Ans} {t' : Nat} {c' : Creation}
    (hrun : Unrivalled w cs moves) (hi : i ≤ moves.length)
    (hasked : Creates w cs moves i t' e s x) (hc' : cs[t']? = some c')
    (howns' : ∀ id, Inserted w cs moves t' id i → c'.Owns id (createdUpto w cs moves i).world)
    {id : Nat} (h : c.Owns id (createdUpto w cs moves i).world) :
    c.Owns id (createdUpto w cs moves (i + 1)).world := by
  obtain ⟨⟨r, hr, hrow⟩, honly⟩ := h
  constructor
  · rcases creation_step hasked hc' id with
      hsame | ⟨⟨_, _, _, _, hnone, _⟩, _⟩ | ⟨r', _, _, u, hu, rfl, hr', hrefreshed⟩
    · exact ⟨r, hsame.trans hr, hrow⟩
    · rw [hr] at hnone
      cases hnone
    · cases hr.symm.trans hr'
      have hrow' := refreshed_same hrun hi hc' howns' hu hr
      exact ⟨_, hrefreshed, hrow.username, rfl, hrow'.role.symm.trans hrow.role, hrow.enabled,
        hrow.hash_ne, hrow.hash⟩
  · intro v hv hnamed
    have hget := Table.get?_of_mem hv
    rcases creation_step hasked hc' (Sql.Keyed.key v) with
      hsame | ⟨hinserts, _, hash, _, hnew⟩ | ⟨r', _, _, _, _, _, hr', hrefreshed⟩
    · rw [hsame] at hget
      exact honly v (Table.mem_of_get? hget) hnamed
    · -- A new account of this name would have met the one that is there.
      have hfree := hrun.inserts i t' c' _ hc' hinserts r (Table.mem_of_get? hr)
      rw [Option.some.inj (hget.symm.trans hnew)] at hnamed
      have hspelled : User.named c'.username r = true := by
        rw [named_iff, hrow.username]
        exact (named_iff.mp hnamed).symm
      exact absurd (hfree.symm.trans hspelled) Bool.false_ne_true
    · rw [hget] at hrefreshed
      have hname : User.named c.username r' = true := by
        rw [Option.some.inj hrefreshed] at hnamed
        exact hnamed
      exact (Table.key_of_get? hr').symm.trans (honly r' (Table.mem_of_get? hr') hname)

/-- **The accounts of the creations**: whoever inserted one owns it from then on. -/
theorem owns_of_inserted (hbcrypt : LawfulBcrypt) (hrun : Unrivalled w cs moves)
    (hi : i ≤ moves.length) : ∀ {t : Nat} {c : Creation} {id : Nat}, cs[t]? = some c →
      Inserted w cs moves t id i → c.Owns id (createdUpto w cs moves i).world := by
  induction i with
  | zero =>
    intro t c id _ hinserted
    obtain ⟨j, hj, _⟩ := hinserted
    exact absurd hj (Nat.not_lt_zero j)
  | succ i ih =>
    have hi' : i ≤ moves.length := Nat.le_of_succ_le hi
    intro t c id hc hinserted
    obtain ⟨j, hj, hinserts⟩ := hinserted
    rcases Nat.lt_succ_iff_lt_or_eq.mp hj with hlt | rfl
    · have howns := ih hi' hc ⟨j, hlt, hinserts⟩
      obtain hsame | ⟨s, x, hasked, _⟩ := Pool.upto_asked exec (creating w cs) hi
      · rw [createdUpto, hsame]
        exact howns
      · obtain ⟨c', hc', _⟩ := creation_of_asked hasked
        exact owns_kept hrun hi' hasked hc' (fun id' h' => ih hi' hc' h') howns
    · exact owns_inserted hbcrypt hrun hi' hc hinserts

/-- What one move keeps of every account. -/
theorem account_step (hbcrypt : LawfulBcrypt) (hrun : Unrivalled w cs moves)
    (hi : i < moves.length) {id : Nat} {r : User}
    (hr : (createdUpto w cs moves i).world.users.get? id = some r) :
    ∃ r', (createdUpto w cs moves (i + 1)).world.users.get? id = some r' ∧
      r'.source = r.source ∧ r'.role = r.role ∧ r'.passHash = r.passHash := by
  have hi' := Nat.le_of_lt hi
  obtain hsame | ⟨s, x, hasked, _⟩ := Pool.upto_asked exec (creating w cs) hi
  · exact ⟨r, by rw [createdUpto, hsame]; exact hr, rfl, rfl, rfl⟩
  · obtain ⟨c, hc, _⟩ := creation_of_asked hasked
    rcases creation_step hasked hc id with
      hsame | ⟨⟨_, _, _, _, hnone, _⟩, _⟩ | ⟨r', _, _, u, hu, rfl, hr', hrefreshed⟩
    · exact ⟨r, hsame.trans hr, rfl, rfl, rfl⟩
    · rw [hr] at hnone
      cases hnone
    · cases hr.symm.trans hr'
      have hrow := refreshed_same hrun hi' hc
        (fun id' h' => owns_of_inserted hbcrypt hrun hi' hc h') hu hr
      exact ⟨_, hrefreshed, hrow.source.symm, hrow.role.symm, rfl⟩

/-- **No account changes** its source, role or password. -/
theorem account_kept (hbcrypt : LawfulBcrypt) (hrun : Unrivalled w cs moves) {id : Nat} {r : User}
    (hr : (createdUpto w cs moves i).world.users.get? id = some r) {j : Nat} (hij : i ≤ j)
    (hj : j ≤ moves.length) : ∃ r', (createdUpto w cs moves j).world.users.get? id = some r' ∧
      r'.source = r.source ∧ r'.role = r.role ∧ r'.passHash = r.passHash := by
  induction hij with
  | refl => exact ⟨r, hr, rfl, rfl, rfl⟩
  | @step j _ ih =>
    obtain ⟨r₁, hr₁, hsource, hrole, hhash⟩ := ih (Nat.le_of_succ_le hj)
    obtain ⟨r₂, hr₂, hsource', hrole', hhash'⟩ := account_step hbcrypt hrun hj hr₁
    exact ⟨r₂, hr₂, hsource'.trans hsource, hrole'.trans hrole, hhash'.trans hhash⟩

/-- A creation that succeeded made an account that it inserted. -/
theorem inserted_of_made (hrun : Unrivalled w cs moves) (hi : i ≤ moves.length)
    (hc : cs[t]? = some c) {u : User} (h : c.Made (own t (createdUpto w cs moves i).history) u) :
    Inserted w cs moves t u.id i := by
  obtain ⟨id, hread, hmade⟩ := h
  obtain ⟨j, e, _, hasked⟩ := asked_of_heard hi hread
  have hid : u.id = id := Table.key_of_get? (found_user hasked.exec)
  rw [hid]
  rcases hmade with ⟨v, hinsert⟩ | ⟨v, hsought, rfl⟩
  · obtain ⟨k, e', hk, hinserted⟩ := asked_of_heard hi hinsert
    exact ⟨k, hk, insertsAt_of_ok hinserted⟩
  · exact inserted_of_sought hrun hi hc hsought

/-- The account of a creation is signed in to with the name and the password of the creation. -/
theorem accepts_of_owns {m : Manager} (hm : m.localEnabled = true)
    (htrimmed : Go.trimSpace c.username = c.username) (hname : Go.trimSpace c.username ≠ "")
    (hpassword : c.password ≠ "") {id : Nat} {w' : World} (h : c.Owns id w') :
    Accepts m w' c.username c.password id := by
  obtain ⟨⟨r, hr, hrow⟩, honly⟩ := h
  have hid : r.id = id := Table.key_of_get? hr
  have hmem := Table.mem_of_get? hr
  rw [← hid]
  refine accepts_of_only ?_ hmem hm ⟨hrow.source, hrow.enabled, ?_, ⟨hname, hpassword⟩,
    hrow.hash_ne, hrow.hash⟩
  · intro v hv hnamed
    rw [htrimmed] at hnamed
    exact Table.eq_of_key_eq hv hmem ((honly v hv hnamed).trans hid.symm)
  · rw [htrimmed, named_iff, hrow.username]

/-- **A created local user signs in and never replaces another**, where passwords are asked for and
the creations keep out of each other's way. -/
theorem soundCreations_of_orderly (m : Manager) (w : World) (cs : List Creation)
    (moves : Pool.Schedule Env) (hbcrypt : LawfulBcrypt) (hm : m.localEnabled = true)
    (horderly : Orderly w cs moves) : SoundCreations m w cs moves where
  admits := by
    intro i t c u hi hc hreturned
    have hrun := unrivalled_of_orderly horderly
    have hrested := Prog.traced_pure.mp (createdUpto_traced w cs moves i t _ hreturned)
    obtain ⟨hmade, hname, hpassword⟩ := hrested c u hc rfl
    have hinserted := inserted_of_made hrun hi hc hmade
    have howns := owns_of_inserted hbcrypt hrun hi hc hinserted
    obtain ⟨j, _, hinserts⟩ := hinserted
    exact accepts_of_owns hm (trimmed_of_inserts horderly hc hinserts) hname hpassword howns
  keeps := fun _ _ _ _ hij hj hr => account_kept hbcrypt (unrivalled_of_orderly horderly) hr hij hj

end Runs

/-! ## Runs at work -/

section Samples

/-- What `Orderly` says of one state and the move after it. -/
def OrderlyAt [Bcrypt] (w : World) (cs : List Creation) (moves : Pool.Schedule Env) (i : Nat) :
    Prop :=
  (∀ m ∈ moves[i]?, ∀ c ∈ cs[m.1]?, ¬ Begun w cs moves i m.1 →
    ((createdUpto w cs moves i).world.Taken c.username → m.2.fault = .none) ∧
    (¬ (createdUpto w cs moves i).world.Taken c.username →
      Go.trimSpace c.username = c.username)) ∧
  ∀ t < cs.length, ∀ u < cs.length, t ≠ u → UnderWay w cs moves i t → UnderWay w cs moves i u →
    ∀ c ∈ cs[t]?, ∀ d ∈ cs[u]?, Store.sqlLower c.username ≠ Store.sqlLower d.username

instance (w : World) (name : String) : Decidable (w.Taken name) := by
  unfold World.Taken
  infer_instance

instance [Bcrypt] (w : World) (cs : List Creation) (moves : Pool.Schedule Env) (i t : Nat) :
    Decidable (Begun w cs moves i t) := by
  unfold Begun
  infer_instance

instance [Bcrypt] (w : World) (cs : List Creation) (moves : Pool.Schedule Env) (i t : Nat) :
    Decidable (UnderWay w cs moves i t) := by
  unfold UnderWay Asks
  infer_instance

instance [Bcrypt] (w : World) (cs : List Creation) (moves : Pool.Schedule Env) (i : Nat) :
    Decidable (OrderlyAt w cs moves i) := by
  unfold OrderlyAt
  have (t u : Nat) : Decidable (∀ c ∈ cs[t]?, ∀ d ∈ cs[u]?,
      Store.sqlLower c.username ≠ Store.sqlLower d.username) := inferInstance
  exact @instDecidableAnd _ _ inferInstance inferInstance

/-- A run is orderly where its states are. -/
theorem orderly_of_orderlyAt [Bcrypt] {w : World} {cs : List Creation} {moves : Pool.Schedule Env}
    (h : ∀ i < moves.length + 1, OrderlyAt w cs moves i) : Orderly w cs moves := by
  have hbegins : ∀ {i t : Nat} {c : Creation} {e : Env}, moves[i]? = some (t, e) →
      cs[t]? = some c → ¬ Begun w cs moves i t →
        ((createdUpto w cs moves i).world.Taken c.username → e.fault = .none) ∧
        (¬ (createdUpto w cs moves i).world.Taken c.username →
          Go.trimSpace c.username = c.username) := by
    intro i t c e hmove hc hfirst
    obtain ⟨hi, -⟩ := List.getElem?_eq_some_iff.mp hmove
    exact (h i (Nat.lt_succ_of_lt hi)).1 _ hmove c hc hfirst
  constructor
  · exact fun i t c e hmove hc _ hfirst => (hbegins hmove hc hfirst).1
  · exact fun i t c e hmove hc _ hfirst => (hbegins hmove hc hfirst).2
  · intro i t u c d hi hc hd hne ht hu
    obtain ⟨hlt, -⟩ := List.getElem?_eq_some_iff.mp hc
    obtain ⟨hlu, -⟩ := List.getElem?_eq_some_iff.mp hd
    exact (h i (Nat.lt_succ_of_le hi)).2 t hlt u hlu hne ht hu c hc d hd

attribute [local instance] saltedBcrypt

theorem lawfulBcrypt_salted : LawfulBcrypt := by
  constructor
  · intro password salt hash h
    rw [← Except.ok.inj h]
    show Go.hasSuffix _ _ = true
    rw [Go.hasSuffix, List.isSuffixOf_iff_suffix]
    refine ⟨("$2a$" ++ salt).toList, ?_⟩
    simp only [String.toList_append, List.append_assoc]
  · intro password salt h
    have hlist := congrArg String.toList (Except.ok.inj h)
    simp [String.toList_append] at hlist

/-- Local sign-in is on. -/
def localManager : Manager := ⟨.modeBoth, true, false, "admin", "", 3600000000000⟩

/-- Two creations of different names, and another one of the first name in another case. -/
def newcomers : List Creation := [
  { username := "alice", password := "correct horse", role := roleAdmin },
  { username := "bob", password := "battery staple" },
  { username := "Alice", password := "Tr0ub4dor&3" }]

/-- Two creations of one name. -/
def namesakes : List Creation := [
  { username := "alice", password := "correct horse", role := roleAdmin },
  { username := "alice", password := "battery staple" }]

/-- A schedule in which nothing fails. -/
def turns (ts : List Nat) : Pool.Schedule Env := ts.map fun t => (t, { now := 0, token := "salt" })

/-- Bob's `INSERT` is reported as failed although it took effect, and the second Alice comes when the
first one is there. -/
def arrivals : Pool.Schedule Env :=
  turns [0, 1, 0, 1, 1, 0, 0] ++ [(1, { now := 0, token := "salt", fault := .late "reset" })] ++
    turns [1, 0, 2, 1, 1, 1]

theorem newcomers_sound :
    SoundCreations localManager World.empty newcomers arrivals ∧
      (createdUpto World.empty newcomers arrivals 14).threads.map
        (fun p => p.result?.map fun r => r.toOption.map User.username) =
          [some (some "alice"), some (some "bob"), some none] := by
  refine ⟨soundCreations_of_orderly _ _ _ _ lawfulBcrypt_salted (by decide) ?_,
    by decide +kernel⟩
  refine orderly_of_orderlyAt ?_
  decide +kernel

/-- **A second creation of a name replaces the first**: between its existence check and its write an
administrator of that name is created, and is an ordinary user afterwards. -/
theorem namesake_replaces :
    ¬ SoundCreations localManager World.empty namesakes (turns [1, 1, 0, 0, 0, 0, 0, 1, 1, 1]) := by
  intro h
  have hadmin : ((createdUpto World.empty namesakes
      (turns [1, 1, 0, 0, 0, 0, 0, 1, 1, 1]) 7).world.users.get? 1).map User.role =
        some roleAdmin := by decide +kernel
  have huser : ((createdUpto World.empty namesakes
      (turns [1, 1, 0, 0, 0, 0, 0, 1, 1, 1]) 10).world.users.get? 1).map User.role =
        some roleUser := by decide +kernel
  obtain ⟨r, hr, hrole⟩ := Option.map_eq_some_iff.mp hadmin
  obtain ⟨r', hr', _, hsame, _⟩ := h.keeps 7 10 1 r (by decide) (by decide) hr
  rw [hr', Option.map_some, hsame, hrole] at huser
  exact absurd huser (by decide)

end Samples

end Goca.Auth
