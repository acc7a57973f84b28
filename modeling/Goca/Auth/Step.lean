import Goca.Auth.Footprint
import Goca.Store.Step

/-!
# One statement, and one request

What a statement does to the tables, as far as the laws rest on it: how the row of an account can
change, and that an answer is what the tables held. Beside it the rules that the proofs about
requests share: what a request does before its handler, and at which move a statement is asked.
-/

set_option autoImplicit false

namespace Goca.Auth

open Interleave (Act Pool Prog Trace)
open Interleave.Act
open Sql (Table)

/-! ## Runs -/

section

variable [Bcrypt] [Go.Runtime]

/-- The pool after the first `n` moves of a schedule. -/
abbrev servedUpto (w : World) (calls : List Call) (moves : Pool.Schedule Env) (n : Nat) :
    Pool sig Reply World := (serving w calls).upto exec moves n

/-- At move `i` thread `t` asks `s` and is answered `x`. -/
abbrev Asked (w : World) (calls : List Call) (moves : Pool.Schedule Env) (i t : Nat) (e : Env)
    (s : Stmt) (x : s.Ans) : Prop := Pool.AskedAt exec (serving w calls) moves i t e s x

end

section World

variable [Bcrypt] {e : Env} {w w' : World}

theorem exec_db {s : DbStmt} {x : Except Go.Error s.Res} (hx : exec e w (.db s) = some (x, w')) :
    x = (e.fault.apply w (w.exec e.pick s)).1 ∧ w' = (e.fault.apply w (w.exec e.pick s)).2 := by
  have h := Option.some.inj hx
  rw [h]
  exact ⟨rfl, rfl⟩

theorem exec_host {s : HostStmt} {x : s.Res} (hx : exec e w (.host s) = some (x, w')) :
    x = hostExec e s ∧ w' = w := by
  cases hx
  exact ⟨rfl, rfl⟩

/-- Every statement is answered. -/
theorem exec_total (e : Env) (w : World) (s : Stmt) : ∃ x w', exec e w s = some (x, w') := by
  cases s with
  | db s => exact ⟨_, _, rfl⟩
  | host s => exact ⟨_, _, rfl⟩

/-- A statement that answered with a result gave that of the table before. -/
theorem exec_db_ok {s : DbStmt} {a : s.Res} (hx : exec e w (.db s) = some (.ok a, w')) :
    (w.exec e.pick s).1 = .ok a := (Store.Fault.apply_ok (exec_db hx).1.symm).1

theorem found_user {id : Nat} {u : User}
    (hx : exec e w (.db (.selectUser id)) = some (.ok (some u), w')) :
    w.users.get? id = some u := Except.ok.inj (exec_db_ok hx)

theorem found_userByName {name : String} {u : User}
    (hx : exec e w (.db (.selectUserByName name)) = some (.ok (some u), w')) :
    u ∈ w.users.rows ∧ User.named name u = true := by
  have hpick := Except.ok.inj (exec_db_ok hx)
  exact List.mem_filter.mp (List.mem_of_getElem? hpick)

theorem listed_users {us : List User} (hx : exec e w (.db .listUsers) = some (.ok us, w')) :
    us.Perm w.users.rows := by
  rw [← Except.ok.inj (exec_db_ok hx)]
  exact List.perm_insertionSort _ _

end World

section

variable [Bcrypt] [Go.Runtime] {w : World} {calls : List Call} {moves : Pool.Schedule Env}

/-- What a thread is about to ask is asked at its move. -/
theorem asked_of_next {i t : Nat} {e : Env} {s : Stmt} (move : moves[i]? = some (t, e))
    (next : (servedUpto w calls moves i).next? t = some s) :
    ∃ x, Asked w calls moves i t e s x := by
  obtain ⟨x, w', hx⟩ := exec_total e (servedUpto w calls moves i).world s
  exact ⟨x, .of_next move next hx⟩

end

/-! ## The row of an account -/

/-- What one statement does to the row of an account. -/
inductive UserStep (s : Stmt) (seq id : Nat) : Option User → Option User → Prop
  | same (r : Option User) : UserStep s seq id r r
  | inserted {u : User} (stmt : s = .db (.insertUser u)) (next : id = seq + 1) :
    UserStep s seq id none (some { u with id, lastLogin := none })
  | updated {r : User} {source : Source} {displayName email role : String}
    (stmt : s = .db (.updateUser id source displayName email role)) :
    UserStep s seq id (some r) (some { r with source, displayName, email, role })
  | role {r : User} {role : String} (stmt : s = .db (.setUserRole id role)) :
    UserStep s seq id (some r) (some { r with role })
  | disabled {r : User} {disabled : Bool} (stmt : s = .db (.setUserDisabled id disabled)) :
    UserStep s seq id (some r) (some { r with disabled })
  | password {r : User} {hash : String} (stmt : s = .db (.setUserPassword id hash)) :
    UserStep s seq id (some r) (some { r with passHash := hash })
  | touched {r : User} {time : Instant} (stmt : s = .db (.touchLogin id time)) :
    UserStep s seq id (some r) (some { r with lastLogin := some time })
  | deleted (r : User) (stmt : s = .db (.deleteUser id)) : UserStep s seq id (some r) none

/-- An update of one account. -/
theorem user_updateUsers {s : Stmt} (w : World) (i id : Nat) (f : User → User)
    (hf : ∀ u, (f u).id = u.id)
    (hit : i = id → ∀ r, UserStep s w.users.seq id (some r) (some (f r))) :
    UserStep s w.users.seq id (w.users.get? id) ((w.updateUsers i f hf).users.get? id) := by
  refine Table.update_induction (P := UserStep s w.users.seq id) w.users (·.id == i) f hf id
    (fun r => .same r) ?_
  intro r hkey hi
  exact hit ((beq_iff_eq.mp hi).symm.trans hkey) r

/-- What a statement leaves of the row of an account, if it takes effect. -/
theorem user_done (pick : Nat) (w : World) (s : DbStmt) (id : Nat) :
    UserStep (.db s) w.users.seq id (w.users.get? id) ((w.exec pick s).2.users.get? id) := by
  cases s with
  | insertUser u =>
    simp only [World.exec]
    split
    · exact .same _
    · rw [Table.get?_insert]
      by_cases hid : id = w.users.seq + 1
      · rw [if_pos hid, Table.get?_eq_none_of_lt (by omega)]
        exact .inserted rfl hid
      · rw [if_neg hid]
        exact .same _
  | updateUser i source displayName email role =>
    refine user_updateUsers w i id _ _ ?_
    rintro rfl r
    exact .updated rfl
  | setUserRole i role =>
    refine user_updateUsers w i id _ _ ?_
    rintro rfl r
    exact .role rfl
  | setUserDisabled i disabled =>
    refine user_updateUsers w i id _ _ ?_
    rintro rfl r
    exact .disabled rfl
  | setUserPassword i hash =>
    refine user_updateUsers w i id _ _ ?_
    rintro rfl r
    exact .password rfl
  | touchLogin i time =>
    refine user_updateUsers w i id _ _ ?_
    rintro rfl r
    exact .touched rfl
  | deleteUser i =>
    simp only [World.exec]
    cases hr : w.users.get? id with
    | none =>
      cases hd : (w.users.delete (·.id == i)).get? id with
      | none => exact .same _
      | some r =>
        rw [(Table.get?_delete.mp hd).1] at hr
        cases hr
    | some r =>
      cases hd : (w.users.delete (·.id == i)).get? id with
      | none =>
        by_cases hi : i = id
        · subst hi
          exact .deleted r rfl
        · have hkey : r.id = id := Table.key_of_get? hr
          have hne : (r.id == i) = false := beq_eq_false_iff_ne.mpr (hkey ▸ Ne.symm hi)
          have hkept : (w.users.delete (·.id == i)).get? id = some r :=
            Table.get?_delete.mpr ⟨hr, hne⟩
          rw [hkept] at hd
          cases hd
      | some r' =>
        rw [(Table.get?_delete.mp hd).1] at hr
        cases hr
        exact .same _
  | insertSession t =>
    simp only [World.exec]
    split <;> exact .same _
  | insertAPIToken t =>
    simp only [World.exec]
    split <;> exact .same _
  | _ => exact .same _

/-- **What a statement does to the row of an account**. -/
theorem user_step [Bcrypt] {e : Env} {w w' : World} {s : Stmt} {x : s.Ans}
    (hx : exec e w s = some (x, w')) (id : Nat) :
    UserStep s w.users.seq id (w.users.get? id) (w'.users.get? id) := by
  cases s with
  | host s =>
    rw [(exec_host hx).2]
    exact .same _
  | db s =>
    rw [(exec_db hx).2]
    rcases e.fault.apply_cases w (w.exec e.pick s) with ⟨_, _, hw⟩ | ⟨_, hw, _⟩
    · rw [hw]
      exact .same _
    · rw [hw]
      exact user_done e.pick w s id

/-! ## Traces -/

section Walk

variable {ε α : Type} {q : Trace sig} {may : Trace sig → Stmt → Prop}

theorem db_traced {s : DbStmt} {ok : Trace sig → s.Res → Prop} (hs : may q (.db s))
    (hok : ∀ a, ok (q ++ [⟨.db s, .ok a⟩]) a) : (db s).Traced may ok q := by
  refine Prog.traced_ask.mpr ⟨hs, fun x => Prog.traced_pure.mpr ?_⟩
  intro b hb
  rw [hb]
  exact hok b

/-- A statement whose failure the caller handles. -/
theorem db_attempt_traced {s : DbStmt} (hs : may q (.db s)) :
    ((db s).attempt : Handler ε (Except Go.Error s.Res)).Traced may
      (fun q' r => q' = q ++ [⟨.db s, r⟩]) q := by
  have hasked : (db s).run.Traced may (fun q' r => q' = q ++ [⟨.db s, r⟩]) q :=
    Prog.traced_ask.mpr ⟨hs, fun x => Prog.traced_pure.mpr rfl⟩
  exact traced_attempt hasked

theorem host_traced {s : HostStmt} {ok : Trace sig → s.Res → Prop} (hs : may q (.host s))
    (hok : ∀ a, ok (q ++ [⟨.host s, a⟩]) a) : (host s : Handler ε s.Res).Traced may ok q := by
  refine Prog.traced_ask.mpr ⟨hs, fun x => Prog.traced_pure.mpr ?_⟩
  rintro a ⟨⟩
  exact hok x

theorem row_traced {x : Handler Go.Error (Option α)} {ok : Trace sig → α → Prop}
    (hx : x.Traced may (fun q' a => ∀ r, a = some r → ok q' r) q) :
    (x.mapResult Store.row).Traced may ok q := by
  refine hx.mapResult ?_
  intro q' r b _ hr hb
  rcases r with e | _ | a
  · cases hb
  · cases hb
  · have hab : a = b := Except.ok.inj hb
    exact hab ▸ hr _ rfl a rfl

/-- What a request does before its handler: it reads, marks a token as used, and goes on as
somebody. -/
abbrev entering : List Effect := [.touchAPIToken, .actAs]

variable {J : Trace sig → Prop}

/-- **An API request**, for what is kept up to its handler. -/
theorem apiAuth_keeps [Go.Runtime] {handler : User → ApiHandler} (adminOnly : Bool) (r : Request)
    (hmay : ∀ q s, J q → Within entering s → may q s)
    (hJ : ∀ q s x, J q → Within entering s → J (q ++ [⟨s, x⟩])) (hq : J q)
    (hh : ∀ q' u, J q' → (handler u).Traced may (fun _ _ => True) q') :
    (apiAuth handler adminOnly r).Traced may (fun _ _ => True) q := by
  refine ((apiCaller_uses (by simp) r).keeps hmay hJ hq).bind ?_
  rintro q₁ ⟨u, c⟩ _ h₁
  refine Traced.bind (m := fun q' _ => J q') (traced_failIf fun _ => h₁) ?_
  intro q₂ _ _ h₂
  have hact : (host (.actAs u c) : Handler Reply Unit).Uses (Within entering) :=
    host_uses (by simp [Within, Stmt.effect?])
  refine (hact.keeps hmay hJ h₂).bind ?_
  intro q₃ _ _ h₃
  exact (hh q₃ u h₃).mapError

/-- **A page**, for what is kept up to its handler. -/
theorem requireUser_keeps {next : User → Page} (r : Request)
    (hmay : ∀ q s, J q → Within entering s → may q s)
    (hJ : ∀ q s x, J q → Within entering s → J (q ++ [⟨s, x⟩])) (hq : J q)
    (hn : ∀ q' u, J q' → (next u).Traced may (fun _ _ => True) q') :
    (requireUser next r).Traced may (fun _ _ => True) q := by
  refine ((userFromRequest_uses r).keeps hmay hJ hq).bind ?_
  intro q₁ found _ h₁
  cases found with
  | none => exact traced_throw
  | some u =>
    refine Traced.bind (m := fun q' _ => J q') (traced_failIf fun _ => h₁) ?_
    intro q₂ _ _ h₂
    have hact : (host (.actAs u .session) : Handler Reply Unit).Uses (Within entering) :=
      host_uses (by simp [Within, Stmt.effect?])
    refine (hact.keeps hmay hJ h₂).bind ?_
    intro q₃ _ _ h₃
    exact hn q₃ u h₃

theorem requireAdmin_keeps {next : User → Page} (r : Request)
    (hmay : ∀ q s, J q → Within entering s → may q s)
    (hJ : ∀ q s x, J q → Within entering s → J (q ++ [⟨s, x⟩])) (hq : J q)
    (hn : ∀ q' u, J q' → (next u).Traced may (fun _ _ => True) q') :
    (requireAdmin next r).Traced may (fun _ _ => True) q := by
  refine requireUser_keeps r hmay hJ hq ?_
  intro q₁ u h₁
  refine Traced.bind (m := fun q' _ => J q') (traced_failIf fun _ => h₁) ?_
  intro q₂ _ _ h₂
  exact hn q₂ u h₂

theorem answering_traced {x : Handler Reply Reply}
    (h : x.Traced may (fun _ _ => True) q) : (answering x).Traced may (fun _ _ => True) q := by
  refine Prog.Traced.bind h ?_
  intro q' r _ _
  cases r <;> exact Prog.traced_pure.mpr trivial

theorem ending_traced {x : Handler Go.Error Unit}
    (h : x.Traced may (fun _ _ => True) q) : (ending x).Traced may (fun _ _ => True) q := by
  refine Prog.Traced.bind h ?_
  intro q' r _ _
  cases r <;> exact Prog.traced_pure.mpr trivial

end Walk

end Goca.Auth
