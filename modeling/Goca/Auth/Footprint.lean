import Goca.Auth.Server
import Goca.Lib.Trace

/-!
# What each operation on the accounts can change

A statement either reads or has one effect: a change of a table, a check of a password, or the
request going on as somebody. The footprint of a function is stated for every list of effects that
has the function's own, so that a caller can use it under its longer list.
-/

set_option autoImplicit false

namespace Goca.Auth

open Interleave (Act Prog)
open Interleave.Act

/-- The effects a statement can have. -/
inductive Effect
  | insertUser | updateUser | setUserRole | setUserDisabled | setUserPassword | deleteUser
  | touchLogin | insertSession | deleteSession | insertAPIToken | touchAPIToken | revokeAPIToken
  | insertAuthFailure | recentAuthFailures | clearAuthFailures | purgeAuthFailures
  | checkPassword | askDirectory | actAs
  deriving Repr, DecidableEq

/-- The effect of a statement. Reading the failures of a key counts as one, because the throttle
decides by it. -/
def Stmt.effect? : Stmt → Option Effect
  | .db (.insertUser _) => some .insertUser
  | .db (.updateUser _ _ _ _ _) => some .updateUser
  | .db (.setUserRole _ _) => some .setUserRole
  | .db (.setUserDisabled _ _) => some .setUserDisabled
  | .db (.setUserPassword _ _) => some .setUserPassword
  | .db (.deleteUser _) => some .deleteUser
  | .db (.touchLogin _ _) => some .touchLogin
  | .db (.insertSession _) => some .insertSession
  | .db (.deleteSession _) => some .deleteSession
  | .db (.deleteUserSessions _) => some .deleteSession
  | .db (.purgeExpiredSessions _) => some .deleteSession
  | .db (.insertAPIToken _) => some .insertAPIToken
  | .db (.touchAPIToken _ _) => some .touchAPIToken
  | .db (.revokeAPIToken _) => some .revokeAPIToken
  | .db (.insertAuthFailure _ _) => some .insertAuthFailure
  | .db (.recentAuthFailures _ _ _) => some .recentAuthFailures
  | .db (.clearAuthFailures _) => some .clearAuthFailures
  | .db (.purgeAuthFailures _) => some .purgeAuthFailures
  | .host (.comparePassword _ _) => some .checkPassword
  | .host (.ldapAuthenticate _ _) => some .askDirectory
  | .host (.oidcExchange _ _) => some .askDirectory
  | .host (.actAs _ _) => some .actAs
  | _ => none

/-- A statement whose effect, if it has one, is among those listed. -/
def Within (l : List Effect) (s : Stmt) : Prop :=
  match Stmt.effect? s with
  | some k => k ∈ l
  | none => True

/-! ## Single statements -/

section Leaves

variable {ε α : Type} {P : Stmt → Prop}

theorem db_uses {s : DbStmt} (h : P (.db s)) : (db s).Uses P := .ask h fun _ => .pure _

theorem host_uses {s : HostStmt} (h : P (.host s)) : (host s : Handler ε s.Res).Uses P :=
  .ask h fun _ => .pure _

end Leaves

variable {l : List Effect} {ε : Type}

theorem now_uses : (now : Handler ε Instant).Uses (Within l) := host_uses trivial

theorem audit_uses (actor action target detail ip : String) :
    (audit actor action target detail ip : Handler ε Unit).Uses (Within l) := host_uses trivial

/-! ## Package store -/

theorem getUser_uses (id : Nat) : (getUser id).Uses (Within l) := (db_uses trivial).mapResult _

theorem getUserByName_uses (name : String) : (getUserByName name).Uses (Within l) :=
  (db_uses trivial).mapResult _

theorem listUsers_uses : listUsers.Uses (Within l) := db_uses trivial

theorem upsertUserOnce_uses (h : [.insertUser, .updateUser] ⊆ l) (u : User) :
    (upsertUserOnce u).Uses (Within l) := by
  refine (getUserByName_uses u.username).attempt.bind fun existing => ?_
  cases existing with
  | ok existing => exact (db_uses (h (by simp))).bind fun _ => getUser_uses existing.id
  | error err =>
    refine uses_ite (fun _ => ?_) fun _ => uses_throw err
    exact (db_uses (h (by simp))).bind fun id => getUser_uses id

theorem upsertUser_uses (h : [.insertUser, .updateUser] ⊆ l) (u : User) :
    (upsertUser u).Uses (Within l) := by
  refine (upsertUserOnce_uses h u).attempt.bind fun out => ?_
  cases out with
  | ok u => exact uses_pure u
  | error err =>
    refine (getUserByName_uses u.username).attempt.bind fun present => ?_
    cases present with
    | ok _ => exact upsertUserOnce_uses h u
    | error _ => exact uses_throw err

theorem touchLogin_uses (h : .touchLogin ∈ l) (id : Nat) : (touchLogin id).Uses (Within l) :=
  now_uses.bind fun _ => db_uses h

theorem sessionUser_uses (hash : TokenHash) : (sessionUser hash).Uses (Within l) :=
  now_uses.bind fun _ => (db_uses trivial).mapResult _

theorem purgeExpiredSessions_uses (h : .deleteSession ∈ l) :
    purgeExpiredSessions.Uses (Within l) := now_uses.bind fun _ => db_uses h

theorem createAPIToken_uses (h : .insertAPIToken ∈ l) (t : APIToken) :
    (createAPIToken t).Uses (Within l) :=
  now_uses.bind fun _ => (db_uses h).bind fun _ => (db_uses trivial).mapResult _

theorem expired_uses (expiresAt : Option Instant) :
    (expired expiresAt : Handler ε Bool).Uses (Within l) := by
  cases expiresAt with
  | none => exact uses_pure false
  | some t => exact now_uses.bind fun _ => uses_pure _

theorem lookupAPIToken_uses (h : .touchAPIToken ∈ l) (hash : TokenHash) :
    (lookupAPIToken hash).Uses (Within l) := by
  refine ((db_uses trivial).mapResult _).bind fun t => ?_
  refine (expired_uses t.expiresAt).bind fun past => ?_
  refine (uses_failIf _ _).bind fun _ => ?_
  refine (getUser_uses t.userID).bind fun u => ?_
  exact now_uses.bind fun _ => (db_uses h).attempt.bind fun _ => uses_pure _

theorem listAPITokens_uses (userID : Nat) : (listAPITokens userID).Uses (Within l) :=
  db_uses trivial

theorem revokeAPIToken_uses (h : .revokeAPIToken ∈ l) (id : Nat) :
    (revokeAPIToken id).Uses (Within l) := (db_uses h).mapResult _

/-! ## Package auth -/

theorem ensureLocalAdmin_uses
    (h : [.insertUser, .updateUser, .setUserRole, .setUserPassword] ⊆ l) (la : LocalAdmin) :
    (ensureLocalAdmin la).Uses (Within l) := by
  refine uses_ite (fun _ => uses_pure ()) fun _ => ?_
  refine (getUserByName_uses la.username).attempt.bind fun found => ?_
  cases found with
  | error err =>
    refine uses_ite (fun _ => ?_) fun _ => uses_throw err
    exact (upsertUser_uses (List.Subset.trans (by decide) h) _).bind fun _ => uses_pure ()
  | ok u =>
    refine Uses.bind (uses_ite (fun _ => db_uses (h (by simp))) fun _ => uses_pure ()) fun _ => ?_
    exact uses_ite (fun _ => db_uses (h (by simp))) fun _ => uses_pure ()

theorem syncDirectoryUser_uses (h : [.insertUser, .updateUser, .touchLogin] ⊆ l) (source : Source)
    (id : Identity) : (syncDirectoryUser source id).Uses (Within l) := by
  refine (getUserByName_uses id.username).attempt.bind fun existing => ?_
  refine (uses_failIf _ _).bind fun _ => ?_
  refine (upsertUser_uses (List.Subset.trans (by decide) h) _).bind fun u => ?_
  exact (touchLogin_uses (h (by simp)) u.id).attempt.bind fun _ => uses_pure u

theorem localAccount_uses (m : Manager) (username : String) :
    (m.localAccount username).Uses (Within l) :=
  uses_ite (fun _ => (getUserByName_uses username).attempt.bind fun _ => uses_pure _)
    fun _ => uses_pure none

theorem authenticateLocal_uses (h : [.checkPassword, .touchLogin] ⊆ l) (u : User)
    (password : String) : (authenticateLocal u password).Uses (Within l) := by
  refine (uses_failIf _ _).bind fun _ => ?_
  refine (host_uses (h (by simp))).bind fun _ => (uses_failIf _ _).bind fun _ => ?_
  exact (touchLogin_uses (h (by simp)) u.id).attempt.bind fun _ => uses_pure u

theorem authenticate_uses
    (h : [.insertUser, .updateUser, .touchLogin, .checkPassword, .askDirectory] ⊆ l)
    (m : Manager) (username password : String) :
    (m.authenticate username password).Uses (Within l) := by
  refine (uses_failIf _ _).bind fun _ => ?_
  refine (localAccount_uses m _).bind fun account => ?_
  cases account with
  | some u => exact authenticateLocal_uses (List.Subset.trans (by decide) h) u password
  | none =>
    refine uses_ite (fun _ => ?_) fun _ => uses_throw _
    refine (host_uses (h (by simp))).bind fun answer => ?_
    refine (uses_ofExcept answer).bind fun id => ?_
    exact syncDirectoryUser_uses (List.Subset.trans (by decide) h) .sourceLDAP id

theorem createSession_uses (h : .insertSession ∈ l) (m : Manager) (u : User) :
    (m.createSession u).Uses (Within l) :=
  (host_uses trivial).bind fun answer => (uses_ofExcept answer).bind fun _ =>
    now_uses.bind fun _ => (db_uses h).bind fun _ => uses_pure _

theorem userFromSession_uses (token : String) : (userFromSession token).Uses (Within l) :=
  (uses_failIf _ _).bind fun _ => (sessionUser_uses _).bind fun u => (uses_failIf _ _).bind fun _ =>
    uses_pure u

theorem destroySession_uses (h : .deleteSession ∈ l) (token : String) :
    (destroySession token).Uses (Within l) := uses_ite (fun _ => uses_pure ()) fun _ => db_uses h

theorem expiry_uses (ttl : Duration) :
    (expiry ttl : Handler ε (Option Instant)).Uses (Within l) :=
  uses_ite (fun _ => now_uses.bind fun _ => uses_pure _) fun _ => uses_pure none

theorem issueAPIToken_uses (h : .insertAPIToken ∈ l) (u : User) (name role : String)
    (ttl : Duration) : (issueAPIToken u name role ttl).Uses (Within l) := by
  refine (uses_failIf _ _).bind fun _ => (uses_failIf _ _).bind fun _ => ?_
  refine (host_uses trivial).bind fun a => (uses_ofExcept a).bind fun body => ?_
  refine (host_uses trivial).bind fun b => (uses_ofExcept b).bind fun pre => ?_
  exact (expiry_uses ttl).bind fun _ => (createAPIToken_uses h _).bind fun _ => uses_pure _

theorem userFromAPIToken_uses (h : .touchAPIToken ∈ l) (token : String) :
    (userFromAPIToken token).Uses (Within l) :=
  (uses_failIf _ _).bind fun _ => (lookupAPIToken_uses h _).bind fun _ =>
    (uses_failIf _ _).bind fun _ => uses_pure _

theorem hashPassword_uses (password : String) : (hashPassword password).Uses (Within l) :=
  (host_uses trivial).bind fun a => uses_ofExcept a

theorem createLocalUser_uses (h : [.insertUser, .updateUser] ⊆ l)
    (username password displayName email role : String) :
    (createLocalUser username password displayName email role).Uses (Within l) := by
  refine (uses_failIf _ _).bind fun _ => (uses_ofExcept _).bind fun _ => ?_
  refine (getUserByName_uses username).attempt.bind fun _ => (uses_failIf _ _).bind fun _ => ?_
  exact (hashPassword_uses password).bind fun _ => upsertUser_uses h _

theorem setPassword_uses (h : .setUserPassword ∈ l) (m : Manager) (u : User) (password : String) :
    (m.setPassword u password).Uses (Within l) := by
  refine (uses_failIf _ _).bind fun _ => (uses_ofExcept _).bind fun _ => ?_
  refine (hashPassword_uses password).bind fun _ => (db_uses h).bind fun _ => ?_
  exact uses_ite (fun _ => (host_uses trivial).bind fun a => uses_ofExcept _) fun _ => uses_pure ()

/-! ## The wrappers -/

theorem userFromRequest_uses (r : Request) :
    (userFromRequest r : Handler ε (Option User)).Uses (Within l) := by
  unfold userFromRequest
  cases r.cookie with
  | none => exact uses_pure none
  | some c =>
    refine uses_ite (fun _ => uses_pure none) fun _ => ?_
    exact (userFromSession_uses c).attempt.bind fun _ => uses_pure _

theorem apiCaller_uses [Go.Runtime] (h : .touchAPIToken ∈ l) (r : Request) :
    (apiCaller r).Uses (Within l) := by
  refine uses_ite (fun _ => ?_) fun _ => ?_
  · exact ((userFromAPIToken_uses h _).mapError _).bind fun _ => uses_pure _
  · refine (userFromRequest_uses r).bind fun found => ?_
    cases found with
    | none => exact uses_throw _
    | some u => exact (uses_failIf _ _).bind fun _ => uses_pure _

theorem apiAuth_uses [Go.Runtime] (h : [.touchAPIToken, .actAs] ⊆ l) {handler : User → ApiHandler}
    (hh : ∀ u, (handler u).Uses (Within l)) (adminOnly : Bool) (r : Request) :
    (apiAuth handler adminOnly r).Uses (Within l) := by
  refine (apiCaller_uses (h (by simp)) r).bind fun caller => (uses_failIf _ _).bind fun _ => ?_
  exact (host_uses (h (by simp))).bind fun _ => (hh caller.1).mapError _

theorem requireUser_uses (h : .actAs ∈ l) {next : User → Page}
    (hn : ∀ u, (next u).Uses (Within l)) (r : Request) :
    (requireUser next r).Uses (Within l) := by
  refine (userFromRequest_uses r).bind fun found => ?_
  cases found with
  | none => exact uses_throw _
  | some u => exact (uses_failIf _ _).bind fun _ => (host_uses h).bind fun _ => hn u

theorem requireAdmin_uses (h : .actAs ∈ l) {next : User → Page}
    (hn : ∀ u, (next u).Uses (Within l)) (r : Request) :
    (requireAdmin next r).Uses (Within l) :=
  requireUser_uses h (fun u => (uses_failIf _ _).bind fun _ => hn u) r

/-! ## Signing in -/

theorem retryAfter_uses (h : .recentAuthFailures ∈ l) (key : String) :
    (retryAfter key : Handler ε Duration).Uses (Within l) := by
  refine now_uses.bind fun t => (db_uses h).attempt.bind fun recent => ?_
  cases recent with
  | error e => exact uses_pure 0
  | ok recent => exact uses_pure _

theorem loginThrottle_uses (h : .recentAuthFailures ∈ l) (username ip : String) :
    (loginThrottle username ip : Handler ε Duration).Uses (Within l) :=
  (retryAfter_uses h _).bind fun wait =>
    uses_ite (fun _ => uses_pure wait) fun _ => retryAfter_uses h _

theorem loginFailed_uses (h : .insertAuthFailure ∈ l) (username ip : String) :
    (loginFailed username ip : Handler ε Unit).Uses (Within l) := by
  have hfail (key : String) : (fail key : Handler ε Unit).Uses (Within l) :=
    now_uses.bind fun _ => (db_uses h).attempt.bind fun _ => uses_pure ()
  exact (hfail _).bind fun _ => hfail _

theorem loginSucceeded_uses (h : .clearAuthFailures ∈ l) (username ip : String) :
    (loginSucceeded username ip : Handler ε Unit).Uses (Within l) := by
  have hreset (key : String) : (reset key : Handler ε Unit).Uses (Within l) :=
    (db_uses h).attempt.bind fun _ => uses_pure ()
  exact (hreset _).bind fun _ => hreset _

/-! ## Tokens -/

theorem ownsToken_uses (u : User) (id : Nat) :
    (ownsToken u id : Handler ε Bool).Uses (Within l) :=
  uses_ite (fun _ => uses_pure true) fun _ =>
    (listAPITokens_uses u.id).attempt.bind fun _ => uses_pure _

theorem apiTokenList_uses (u : User) : (apiTokenList u).Uses (Within l) :=
  ((listAPITokens_uses _).mapError _).bind fun _ => uses_pure _

theorem apiTokenRevoke_uses (h : .revokeAPIToken ∈ l) (path : String) (u : User) :
    (apiTokenRevoke path u).Uses (Within l) := by
  unfold apiTokenRevoke
  cases pathNumber path with
  | none => exact uses_throw _
  | some id =>
    refine (ownsToken_uses u id).bind fun _ => (uses_failIf _ _).bind fun _ => ?_
    exact ((revokeAPIToken_uses h id).mapError _).bind fun _ => uses_pure _

theorem handleTokenRevoke_uses (h : .revokeAPIToken ∈ l) (path : String) (r : Request)
    (u : User) : (handleTokenRevoke path r u).Uses (Within l) := by
  unfold handleTokenRevoke
  cases pathNumber path with
  | none => exact uses_throw _
  | some id =>
    refine (ownsToken_uses u id).bind fun _ => (uses_failIf _ _).bind fun _ => ?_
    refine ((revokeAPIToken_uses h id).mapError _).bind fun _ => ?_
    exact (audit_uses _ _ _ _ _).bind fun _ => uses_pure _

/-! ## Accounts -/

theorem pathUser_uses (ref : String) : (pathUser ref).Uses (Within l) := by
  have hname : (api (getUserByName ref)).Uses (Within l) := (getUserByName_uses ref).mapError _
  unfold pathUser
  refine (uses_failIf _ _).bind fun _ => ?_
  cases pathNumber ref with
  | none => exact hname
  | some id =>
    refine (getUser_uses id).attempt.bind fun found => ?_
    cases found with
    | ok u => exact uses_pure u
    | error e => exact hname

theorem isLastAdmin_uses (target : User) :
    (isLastAdmin target : Handler ε Bool).Uses (Within l) := by
  refine uses_ite (fun _ => uses_pure false) fun _ => ?_
  refine listUsers_uses.attempt.bind fun users => ?_
  cases users with
  | error e => exact uses_pure true
  | ok users => exact uses_pure _

theorem andLastAdmin_uses (cond : Bool) (target : User) :
    (andLastAdmin cond target : Handler ε Bool).Uses (Within l) :=
  uses_ite (fun _ => isLastAdmin_uses target) fun _ => uses_pure false

theorem apiUserList_uses (u : User) : (apiUserList u).Uses (Within l) :=
  (listUsers_uses.mapError _).bind fun _ => uses_pure _

theorem apiUserCreate_uses (h : [.insertUser, .updateUser] ⊆ l) (body : Except String UserRequest)
    (r : Request) (u : User) : (apiUserCreate body r u).Uses (Within l) := by
  refine (uses_ofExcept _).bind fun body => ((createLocalUser_uses h _ _ _ _ _).mapError _).bind ?_
  exact fun _ => (audit_uses _ _ _ _ _).bind fun _ => uses_pure _

theorem handleUserCreate_uses (h : [.insertUser, .updateUser] ⊆ l) (body : UserRequest)
    (r : Request) (u : User) : (handleUserCreate body r u).Uses (Within l) :=
  ((createLocalUser_uses h _ _ _ _ _).mapError _).bind fun _ =>
    (audit_uses _ _ _ _ _).bind fun _ => uses_pure _

theorem patchRole_uses (h : .setUserRole ∈ l) (target : User) (role : Option String) :
    (patchRole target role).Uses (Within l) := by
  cases role with
  | none => exact uses_pure ()
  | some role =>
    refine (andLastAdmin_uses _ target).bind fun _ => (uses_failIf _ _).bind fun _ => ?_
    exact Uses.mapError (db_uses h) _

theorem endSessions_uses (h : .deleteSession ∈ l) (disabled : Bool) (id : Nat) :
    (endSessions disabled id : Handler ε Unit).Uses (Within l) :=
  uses_ite (fun _ => (db_uses h).attempt.bind fun _ => uses_pure ()) fun _ => uses_pure ()

theorem patchDisabled_uses (h : [.setUserDisabled, .deleteSession] ⊆ l) (target : User)
    (disabled : Option Bool) : (patchDisabled target disabled).Uses (Within l) := by
  cases disabled with
  | none => exact uses_pure ()
  | some disabled =>
    refine (andLastAdmin_uses _ target).bind fun _ => (uses_failIf _ _).bind fun _ => ?_
    refine Uses.bind (Uses.mapError (db_uses (h (by simp))) _) fun _ => ?_
    exact endSessions_uses (h (by simp)) _ _

theorem patchPassword_uses (h : .setUserPassword ∈ l) (s : Server) (target : User)
    (password : Option String) : (s.patchPassword target password).Uses (Within l) := by
  cases password with
  | none => exact uses_pure ()
  | some password => exact (setPassword_uses h s.auth target password).mapError _

theorem apiUserPatch_uses
    (h : [.setUserRole, .setUserDisabled, .deleteSession, .setUserPassword] ⊆ l) (s : Server)
    (ref : String) (body : Except String UserPatch) (r : Request) (u : User) :
    (s.apiUserPatch ref body r u).Uses (Within l) := by
  refine (pathUser_uses ref).bind fun target => (uses_ofExcept _).bind fun body => ?_
  refine (patchRole_uses (h (by simp)) target _).bind fun _ => ?_
  refine (patchDisabled_uses (List.Subset.trans (by decide) h) target _).bind fun _ => ?_
  refine (patchPassword_uses (h (by simp)) s target _).bind fun _ => ?_
  exact ((getUser_uses _).mapError _).bind fun _ => (audit_uses _ _ _ _ _).bind fun _ => uses_pure _

theorem deleteUser_uses (h : .deleteUser ∈ l) (id : Nat) : (deleteUser id).Uses (Within l) :=
  (db_uses h).mapResult _

theorem apiUserDelete_uses (h : .deleteUser ∈ l) (ref : String) (r : Request) (u : User) :
    (apiUserDelete ref r u).Uses (Within l) := by
  refine (pathUser_uses ref).bind fun target => (isLastAdmin_uses target).bind fun _ => ?_
  refine (uses_failIf _ _).bind fun _ => ((deleteUser_uses h _).mapError _).bind fun _ => ?_
  exact (audit_uses _ _ _ _ _).bind fun _ => uses_pure _

theorem lookupUser_uses (path : String) : (lookupUser path).Uses (Within l) := by
  unfold lookupUser
  cases pathNumber path with
  | none => exact uses_throw _
  | some id => exact (getUser_uses id).mapError _

theorem handleUserRole_uses (h : .setUserRole ∈ l) (path role : String) (r : Request) (u : User) :
    (handleUserRole path role r u).Uses (Within l) := by
  refine (lookupUser_uses path).bind fun target => (andLastAdmin_uses _ target).bind fun _ => ?_
  refine (uses_failIf _ _).bind fun _ => Uses.bind (Uses.mapError (db_uses h) _) fun _ => ?_
  exact (audit_uses _ _ _ _ _).bind fun _ => uses_pure _

theorem handleUserDisable_uses (h : [.setUserDisabled, .deleteSession] ⊆ l) (path : String)
    (disabled : Bool) (r : Request) (u : User) :
    (handleUserDisable path disabled r u).Uses (Within l) := by
  refine (lookupUser_uses path).bind fun target => (andLastAdmin_uses _ target).bind fun _ => ?_
  refine (uses_failIf _ _).bind fun _ => ?_
  refine Uses.bind (Uses.mapError (db_uses (h (by simp))) _) fun _ => ?_
  refine (endSessions_uses (h (by simp)) _ _).bind fun _ => ?_
  exact (audit_uses _ _ _ _ _).bind fun _ => uses_pure _

theorem handleUserDelete_uses (h : .deleteUser ∈ l) (path : String) (r : Request) (u : User) :
    (handleUserDelete path r u).Uses (Within l) := by
  refine (lookupUser_uses path).bind fun target => (isLastAdmin_uses target).bind fun _ => ?_
  refine (uses_failIf _ _).bind fun _ => ((deleteUser_uses h _).mapError _).bind fun _ => ?_
  exact (audit_uses _ _ _ _ _).bind fun _ => uses_pure _

theorem handleChangePassword_uses (h : [.checkPassword, .setUserPassword] ⊆ l) (s : Server)
    (current next : String) (r : Request) (u : User) :
    (s.handleChangePassword current next r u).Uses (Within l) := by
  refine ((getUserByName_uses _).mapError _).bind fun full => ?_
  refine (host_uses (h (by simp))).bind fun _ => (uses_failIf _ _).bind fun _ => ?_
  refine ((setPassword_uses (h (by simp)) s.auth full next).mapError _).bind fun _ => ?_
  exact (audit_uses _ _ _ _ _).bind fun _ => uses_pure _

/-! ## The process itself -/

theorem handleLogout_uses (h : .deleteSession ∈ l) (r : Request) :
    (handleLogout r).Uses (Within l) := by
  unfold handleLogout
  cases r.cookie with
  | none => exact uses_pure _
  | some c =>
    refine (userFromRequest_uses r).bind fun found => ?_
    have hrest : (do
        let _ ← (destroySession c).attempt
        pure (.redirect "/login") : Page).Uses (Within l) :=
      (destroySession_uses h c).attempt.bind fun _ => uses_pure _
    cases found with
    | none => exact hrest
    | some u => exact (audit_uses _ _ _ _ _).bind fun _ => hrest

theorem start_uses
    (h : [.insertUser, .updateUser, .setUserRole, .setUserPassword, .deleteSession] ⊆ l)
    (la : LocalAdmin) : (start la).Uses (Within l) := by
  refine ((ensureLocalAdmin_uses (List.Subset.trans (by decide) h) la).mapError _).bind fun _ => ?_
  exact (purgeExpiredSessions_uses (h (by simp))).attempt.bind fun _ => uses_pure ()

theorem purgeExpired_uses (h : [.deleteSession, .purgeAuthFailures] ⊆ l) :
    purgeExpired.Uses (Within l) := by
  refine (purgeExpiredSessions_uses (h (by simp))).attempt.bind fun _ => ?_
  have hpurge : purge.Uses (Within l) := now_uses.bind fun _ => db_uses (h (by simp))
  exact hpurge.attempt.bind fun _ => uses_pure ()

/-! ## Calls -/

theorem finishLogin_uses (h : [.actAs, .insertSession] ⊆ l) (s : Server) (u : User) (r : Request) :
    (s.finishLogin u r).Uses (Within l) := by
  refine (host_uses (h (by simp))).bind fun _ => ?_
  refine (createSession_uses (h (by simp)) s.auth u).attempt.bind fun answer => ?_
  cases answer with
  | error err => exact uses_throw _
  | ok token => exact (audit_uses _ _ _ _ _).bind fun _ => uses_pure _

theorem handleOIDCCallback_uses
    (h : [.askDirectory, .insertUser, .updateUser, .touchLogin, .actAs, .insertSession] ⊆ l)
    (s : Server) (c : Callback) (r : Request) : (s.handleOIDCCallback c r).Uses (Within l) := by
  refine (uses_failIf _ _).bind fun _ => ?_
  cases c.expected with
  | none => exact uses_throw _
  | some expected =>
    refine (uses_failIf _ _).bind fun _ => (uses_failIf _ _).bind fun _ => ?_
    refine (uses_failIf _ _).bind fun _ => (host_uses (h (by simp))).bind fun answer => ?_
    cases answer with
    | error err => exact (audit_uses _ _ _ _ _).bind fun _ => uses_throw _
    | ok id =>
      have hsync := syncDirectoryUser_uses (l := l) (List.Subset.trans (by decide) h) .sourceOIDC id
      refine hsync.attempt.bind fun synced => ?_
      cases synced with
      | error err => exact uses_throw _
      | ok u => exact finishLogin_uses (List.Subset.trans (by decide) h) s u r

theorem command_uses (h : [.insertUser, .updateUser, .setUserRole, .setUserDisabled,
    .setUserPassword, .deleteUser, .deleteSession, .insertAPIToken, .revokeAPIToken, .actAs] ⊆ l)
    (m : Manager) (actor : String) (command : Command) :
    (command.run m actor).Uses (Within l) := by
  cases command with
  | userAdd body =>
    exact (createLocalUser_uses (List.Subset.trans (by decide) h) _ _ _ _ _).bind fun _ =>
      audit_uses _ _ _ _ _
  | userRole username role =>
    refine (getUserByName_uses _).bind fun _ => (uses_failIf _ _).bind fun _ => ?_
    exact Uses.bind (db_uses (h (by simp))) fun _ => audit_uses _ _ _ _ _
  | userPasswd username password =>
    refine (getUserByName_uses _).bind fun u => ?_
    exact (setPassword_uses (h (by simp)) m u password).bind fun _ => audit_uses _ _ _ _ _
  | userDisable username enable =>
    refine (getUserByName_uses _).bind fun u => Uses.bind (db_uses (h (by simp))) fun _ => ?_
    exact (endSessions_uses (h (by simp)) _ _).bind fun _ => audit_uses _ _ _ _ _
  | userDelete username =>
    refine (getUserByName_uses _).bind fun u => ?_
    exact (deleteUser_uses (h (by simp)) _).bind fun _ => audit_uses _ _ _ _ _
  | tokenCreate owner name role n =>
    refine ((getUserByName_uses _).mapError _).bind fun u => (uses_failIf _ _).bind fun _ => ?_
    refine (host_uses (h (by simp))).bind fun _ => ?_
    exact (issueAPIToken_uses (h (by simp)) u _ _ _).bind fun _ => audit_uses _ _ _ _ _
  | tokenRevoke id =>
    unfold Command.run
    dsimp only
    cases pathNumber id with
    | none => exact uses_throw _
    | some n => exact (revokeAPIToken_uses (h (by simp)) n).bind fun _ => audit_uses _ _ _ _ _

theorem uses_answering {x : Handler Reply Reply} (hx : x.Uses (Within l)) :
    (answering x).Uses (Within l) := by
  refine Prog.Uses.bind hx fun r => ?_
  cases r <;> exact .pure _

theorem uses_ending {x : Handler Go.Error Unit} (hx : x.Uses (Within l)) :
    (ending x).Uses (Within l) := by
  refine Prog.Uses.bind hx fun r => ?_
  cases r <;> exact .pure _

/-- The sign-ins with a password, which the throttle is asked about. -/
def Op.throttled : Op → Bool
  | .apiAuthLogin _ | .handleLoginSubmit _ _ => true
  | _ => false

/-- The effects of the calls that are not throttled. -/
def Op.effects : Op → List Effect
  | .apiAuthLogin _ | .handleLoginSubmit _ _ => []
  | .api _ | .apiTokenList | .apiUserList => [.touchAPIToken, .actAs]
  | .page => [.actAs]
  | .apiTokenCreate _ => [.touchAPIToken, .actAs, .insertAPIToken]
  | .apiTokenRevoke _ => [.touchAPIToken, .actAs, .revokeAPIToken]
  | .apiUserCreate _ => [.touchAPIToken, .actAs, .insertUser, .updateUser]
  | .apiUserPatch _ _ => [.touchAPIToken, .actAs, .setUserRole, .setUserDisabled, .deleteSession,
      .setUserPassword]
  | .apiUserDelete _ => [.touchAPIToken, .actAs, .deleteUser]
  | .handleOIDCCallback _ => [.askDirectory, .insertUser, .updateUser, .touchLogin, .actAs,
      .insertSession]
  | .handleLogout => [.deleteSession]
  | .handleTokenCreate _ => [.actAs, .insertAPIToken]
  | .handleTokenRevoke _ => [.actAs, .revokeAPIToken]
  | .handleUserCreate _ => [.actAs, .insertUser, .updateUser]
  | .handleUserRole _ _ => [.actAs, .setUserRole]
  | .handleUserDisable _ _ => [.actAs, .setUserDisabled, .deleteSession]
  | .handleUserDelete _ => [.actAs, .deleteUser]
  | .handleChangePassword _ _ => [.actAs, .checkPassword, .setUserPassword]
  | .start _ => [.insertUser, .updateUser, .setUserRole, .setUserPassword, .deleteSession]
  | .purgeExpired => [.deleteSession, .purgeAuthFailures]
  | .cli _ _ _ => [.insertUser, .updateUser, .setUserRole, .setUserDisabled, .setUserPassword,
      .deleteUser, .deleteSession, .insertAPIToken, .revokeAPIToken, .actAs]

/-- **The footprint of a call** that is not throttled. -/
theorem serve_uses [Go.Runtime] (c : Call) (hc : c.op.throttled = false) (h : c.op.effects ⊆ l) :
    c.serve.Uses (Within l) := by
  obtain ⟨s, r, op⟩ := c
  have hsub {l' : List Effect} (hl : l' ⊆ op.effects) : l' ⊆ l := List.Subset.trans hl h
  cases op with
  | apiAuthLogin _ => cases hc
  | handleLoginSubmit _ _ => cases hc
  | api adminOnly =>
    exact uses_answering (apiAuth_uses h (fun _ => uses_pure _) adminOnly r)
  | page =>
    exact uses_answering (requireUser_uses (h (by simp [Op.effects])) (fun _ => uses_pure _) r)
  | apiTokenList => exact uses_answering (apiAuth_uses h apiTokenList_uses false r)
  | apiTokenCreate body =>
    refine uses_answering (apiAuth_uses (hsub (by simp [Op.effects])) (fun u => ?_) false r)
    refine (uses_ofExcept _).bind fun body => (uses_failIf _ _).bind fun _ => ?_
    refine ((issueAPIToken_uses (h (by simp [Op.effects])) u _ _ _).mapError _).bind fun _ => ?_
    exact (audit_uses _ _ _ _ _).bind fun _ => uses_pure _
  | apiTokenRevoke path =>
    exact uses_answering (apiAuth_uses (hsub (by simp [Op.effects]))
      (apiTokenRevoke_uses (h (by simp [Op.effects])) path) false r)
  | apiUserList => exact uses_answering (apiAuth_uses h apiUserList_uses true r)
  | apiUserCreate body =>
    exact uses_answering (apiAuth_uses (hsub (by simp [Op.effects]))
      (apiUserCreate_uses (hsub (by simp [Op.effects])) body r) true r)
  | apiUserPatch ref body =>
    exact uses_answering (apiAuth_uses (hsub (by simp [Op.effects]))
      (apiUserPatch_uses (hsub (by simp [Op.effects])) s ref body r) true r)
  | apiUserDelete ref =>
    exact uses_answering (apiAuth_uses (hsub (by simp [Op.effects]))
      (apiUserDelete_uses (h (by simp [Op.effects])) ref r) true r)
  | handleOIDCCallback c => exact uses_answering (handleOIDCCallback_uses h s c r)
  | handleLogout => exact uses_answering (handleLogout_uses (h (by simp [Op.effects])) r)
  | handleTokenCreate body =>
    refine uses_answering (requireUser_uses (h (by simp [Op.effects])) (fun u => ?_) r)
    refine ((issueAPIToken_uses (h (by simp [Op.effects])) u _ _ _).mapError _).bind fun _ => ?_
    exact (audit_uses _ _ _ _ _).bind fun _ => uses_pure _
  | handleTokenRevoke path =>
    exact uses_answering (requireUser_uses (h (by simp [Op.effects]))
      (handleTokenRevoke_uses (h (by simp [Op.effects])) path r) r)
  | handleUserCreate body =>
    exact uses_answering (requireAdmin_uses (h (by simp [Op.effects]))
      (handleUserCreate_uses (hsub (by simp [Op.effects])) body r) r)
  | handleUserRole path role =>
    exact uses_answering (requireAdmin_uses (h (by simp [Op.effects]))
      (handleUserRole_uses (h (by simp [Op.effects])) path role r) r)
  | handleUserDisable path disabled =>
    exact uses_answering (requireAdmin_uses (h (by simp [Op.effects]))
      (handleUserDisable_uses (hsub (by simp [Op.effects])) path disabled r) r)
  | handleUserDelete path =>
    exact uses_answering (requireAdmin_uses (h (by simp [Op.effects]))
      (handleUserDelete_uses (h (by simp [Op.effects])) path r) r)
  | handleChangePassword current next =>
    exact uses_answering (requireUser_uses (h (by simp [Op.effects]))
      (handleChangePassword_uses (hsub (by simp [Op.effects])) s current next r) r)
  | start la => exact uses_ending (start_uses h la)
  | purgeExpired => exact uses_ending (purgeExpired_uses h)
  | cli la actor command =>
    refine uses_ending (Uses.bind (ensureLocalAdmin_uses (hsub (by simp [Op.effects])) la) ?_)
    exact fun _ => command_uses h s.auth actor command

end Goca.Auth
