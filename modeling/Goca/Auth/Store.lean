import Mathlib.Data.List.Sort
import Goca.Store.Ca
import Goca.Store.World

/-!
# Accounts, sessions, tokens and failed sign-ins

The tables that package auth and the sign-in throttle work on, and what each statement over them
does. Names of accounts are unique as they are written, and looked up without regard to case. The
environment of a statement is its time, which row an unordered query picks, what randomness gives,
who the directory or the provider says somebody is, and whether the connection fails, before or
after the statement took effect.
-/

set_option autoImplicit false

namespace Goca.Auth

open Goca.Store (Fault pickRow sqlLower)
open Sql (Table)

/-- An instant, in nanoseconds since Go's zero time. -/
abbrev Instant := Int

/-- A `time.Duration`, in nanoseconds. Its 64 bits, which last for 292 years, are not modelled. -/
abbrev Duration := Int

/-! ## Rows -/

/-- Where an account comes from: `SourceLocal`, `SourceLDAP`, `SourceOIDC`. -/
inductive Source
  | sourceLocal | sourceLDAP | sourceOIDC
  deriving Repr, DecidableEq

def Source.text : Source → String
  | .sourceLocal => "local"
  | .sourceLDAP => "ldap"
  | .sourceOIDC => "oidc"

/-- `RoleAdmin`. -/
def roleAdmin : String := "admin"

/-- `RoleUser`. -/
def roleUser : String := "user"

/-- A portal account. -/
structure User where
  id : Nat := 0
  username : String
  source : Source
  displayName : String := ""
  email : String := ""
  role : String
  disabled : Bool := false
  passHash : String := ""
  lastLogin : Option Instant := none
  deriving Repr, DecidableEq

/-- `IsAdmin` reports whether the user holds the admin role. -/
def User.isAdmin (u : User) : Bool := u.role == roleAdmin

/-- The SHA-256 of a session or API token, ideal: what it was taken of. -/
structure TokenHash where
  token : String
  deriving Repr, DecidableEq

/-- `HashToken` hashes a session or API token for storage. -/
def hashToken (token : String) : TokenHash := ⟨token⟩

/-- A browser login session. -/
structure Session where
  id : Nat := 0
  userID : Nat
  tokenHash : TokenHash
  expiresAt : Instant
  deriving Repr, DecidableEq

/-- A bearer credential for the REST API. -/
structure APIToken where
  id : Nat := 0
  userID : Nat
  name : String
  tokenPrefix : String
  tokenHash : TokenHash
  role : String
  expiresAt : Option Instant
  createdAt : Instant := 0
  lastUsedAt : Option Instant := none
  revoked : Bool := false
  deriving Repr, DecidableEq

/-- A failed sign-in, under one of the keys it counts for. -/
structure AuthFailure where
  key : String
  time : Instant
  deriving Repr, DecidableEq

instance : Sql.Keyed User := ⟨User.id⟩

instance : Sql.Keyed Session := ⟨Session.id⟩

instance : Sql.Keyed APIToken := ⟨APIToken.id⟩

/-- The database that the replicas share. -/
structure World where
  users : Table User
  sessions : Table Session
  apiTokens : Table APIToken
  authFailures : List AuthFailure

/-- A new database. -/
def World.empty : World := ⟨.empty, .empty, .empty, []⟩

/-! ## Statements -/

/-- Who an LDAP directory or an OIDC provider says has signed in. -/
structure Identity where
  username : String
  displayName : String
  email : String
  isAdmin : Bool
  deriving Repr, DecidableEq

/-- What a request acts on the strength of. -/
inductive Credential
  | session
  | token (rec : APIToken)
  /-- A sign-in: the password or the identity was checked just now. -/
  | login
  /-- A command on the server host. -/
  | operator
  deriving Repr, DecidableEq

/-- A statement over the tables. -/
inductive DbStmt
  | selectUser (id : Nat)
  | selectUserByName (name : String)
  | listUsers
  | insertUser (u : User)
  | updateUser (id : Nat) (source : Source) (displayName email role : String)
  | setUserRole (id : Nat) (role : String)
  | setUserDisabled (id : Nat) (disabled : Bool)
  | setUserPassword (id : Nat) (hash : String)
  | deleteUser (id : Nat)
  | touchLogin (id : Nat) (time : Instant)
  | insertSession (s : Session)
  | selectSessionUser (hash : TokenHash) (now : Instant)
  | deleteSession (hash : TokenHash)
  | deleteUserSessions (userID : Nat)
  | purgeExpiredSessions (now : Instant)
  | insertAPIToken (t : APIToken)
  | selectAPIToken (id : Nat)
  | lookupAPIToken (hash : TokenHash)
  | touchAPIToken (id : Nat) (time : Instant)
  | listAPITokens (userID : Nat)
  | revokeAPIToken (id : Nat)
  | insertAuthFailure (key : String) (time : Instant)
  | recentAuthFailures (key : String) (since : Instant) (limit : Nat)
  | clearAuthFailures (key : String)
  | purgeAuthFailures (before : Instant)
  deriving Repr, DecidableEq

/-- What a statement answers when it does not fail. -/
abbrev DbStmt.Res : DbStmt → Type
  | selectUser _ => Option User
  | selectUserByName _ => Option User
  | listUsers => List User
  | insertUser _ => Nat
  | updateUser _ _ _ _ _ => Unit
  | setUserRole _ _ => Unit
  | setUserDisabled _ _ => Unit
  | setUserPassword _ _ => Unit
  | deleteUser _ => Nat
  | touchLogin _ _ => Unit
  | insertSession _ => Unit
  | selectSessionUser _ _ => Option User
  | deleteSession _ => Unit
  | deleteUserSessions _ => Unit
  | purgeExpiredSessions _ => Nat
  | insertAPIToken _ => Nat
  | selectAPIToken _ => Option APIToken
  | lookupAPIToken _ => Option APIToken
  | touchAPIToken _ _ => Unit
  | listAPITokens _ => List APIToken
  | revokeAPIToken _ => Nat
  | insertAuthFailure _ _ => Unit
  | recentAuthFailures _ _ _ => List Instant
  | clearAuthFailures _ => Unit
  | purgeAuthFailures _ => Nat

/-- A call of the clock, of another package, or of something outside the process. -/
inductive HostStmt
  | now
  /-- `rand.Read`, encoded. -/
  | randomToken
  /-- `bcrypt.GenerateFromPassword`. -/
  | hashPassword (password : String)
  /-- `bcrypt.CompareHashAndPassword`. -/
  | comparePassword (hash password : String)
  /-- `ldapauth.Client.Authenticate`. -/
  | ldapAuthenticate (username password : String)
  /-- `oidcauth.Client.Exchange`. -/
  | oidcExchange (code nonce : String)
  /-- `cfg.Save`, with a new hash for the local administrator. -/
  | saveConfig (hash : String)
  /-- `AuditWithIP`, whose failures nobody sees. -/
  | audit (actor action target detail ip : String)
  /-- The request goes on as this user: the value of `ctxUser`, or the variable in its place. -/
  | actAs (u : User) (by_ : Credential)
  deriving Repr, DecidableEq

abbrev HostStmt.Res : HostStmt → Type
  | now => Instant
  | randomToken => Except Go.Error String
  | hashPassword _ => Except Go.Error String
  | comparePassword _ _ => Bool
  | ldapAuthenticate _ _ => Except Go.Error Identity
  | oidcExchange _ _ => Except Go.Error Identity
  | saveConfig _ => Except Go.Error Unit
  | audit _ _ _ _ _ => Unit
  | actAs _ _ => Unit

/-- What a handler asks. -/
inductive Stmt
  | db (s : DbStmt)
  | host (s : HostStmt)
  deriving Repr, DecidableEq

abbrev Stmt.Ans : Stmt → Type
  | db s => Except Go.Error s.Res
  | host s => s.Res

abbrev sig : Interleave.Sig := ⟨Stmt, Stmt.Ans⟩

/-- A handler over these tables. -/
abbrev Handler (ε α : Type) := Interleave.Act sig ε α

/-! ## Execution -/

/-- Package bcrypt: the hash of a password under a salt, and whether a hash is one of a password. -/
class Bcrypt where
  generate : String → String → Except Go.Error String
  compare : String → String → Bool

/-- Hashes that are the salt with the password behind it, to run handlers on given inputs. -/
@[reducible] def saltedBcrypt : Bcrypt where
  generate password salt := .ok ("$2a$" ++ salt ++ "$" ++ password)
  compare hash password := Go.hasSuffix hash ("$" ++ password)

/-- The environment's choices for one statement. -/
structure Env where
  now : Instant
  pick : Nat := 0
  token : String := ""
  identity : Except Go.Error Identity := .error (.new "invalid username or password")
  fault : Fault := .none

/-- Whether a row has the name of an account. -/
def User.named (name : String) (u : User) : Bool := sqlLower u.username == sqlLower name

/-- Replace one table of the database. -/
def World.updateUsers (w : World) (id : Nat) (f : User → User) (hf : ∀ u, (f u).id = u.id) :
    World := { w with users := w.users.update (·.id == id) f hf }

theorem get?_updateUsers_self (w : World) (id : Nat) (f : User → User)
    (hf : ∀ u, (f u).id = u.id) :
    (w.updateUsers id f hf).users.get? id = (w.users.get? id).map f :=
  Table.get?_update_self w.users hf fun _ hkey => beq_iff_eq.mpr hkey

def World.updateTokens (w : World) (id : Nat) (f : APIToken → APIToken)
    (hf : ∀ t, (f t).id = t.id) : World :=
  { w with apiTokens := w.apiTokens.update (·.id == id) f hf }

/-- The violated constraint of an inserted session. -/
def World.sessionConflict (w : World) (s : Session) : Option String :=
  if w.sessions.rows.any (·.tokenHash == s.tokenHash) then
    some "UNIQUE constraint failed: sessions.token_hash"
  else if (w.users.get? s.userID).isNone then some "FOREIGN KEY constraint failed"
  else none

/-- The violated constraint of an inserted token. -/
def World.tokenConflict (w : World) (t : APIToken) : Option String :=
  if w.apiTokens.rows.any (·.tokenHash == t.tokenHash) then
    some "UNIQUE constraint failed: api_tokens.token_hash"
  else if (w.users.get? t.userID).isNone then some "FOREIGN KEY constraint failed"
  else none

/-- What a statement answers and leaves. -/
def World.exec (pick : Nat) (w : World) : (s : DbStmt) → Except Go.Error s.Res × World
  | .selectUser id => (.ok (w.users.get? id), w)
  | .selectUserByName name => (.ok (pickRow pick (w.users.rows.filter (User.named name))), w)
  | .listUsers => (.ok (w.users.rows.insertionSort fun a b => a.username ≤ b.username), w)
  | .insertUser u =>
    if w.users.rows.any (·.username == u.username) then
      (.error (.driver "UNIQUE constraint failed: users.username"), w)
    else (.ok (w.users.seq + 1),
      { w with users := w.users.insert (fun id => { u with id, lastLogin := none }) fun _ => rfl })
  | .updateUser id source displayName email role =>
    (.ok (), w.updateUsers id (fun u => { u with source, displayName, email, role }) fun _ => rfl)
  | .setUserRole id role => (.ok (), w.updateUsers id (fun u => { u with role }) fun _ => rfl)
  | .setUserDisabled id disabled =>
    (.ok (), w.updateUsers id (fun u => { u with disabled }) fun _ => rfl)
  | .setUserPassword id hash =>
    (.ok (), w.updateUsers id (fun u => { u with passHash := hash }) fun _ => rfl)
  | .deleteUser id => (.ok (w.users.count (·.id == id)), { w with
      users := w.users.delete (·.id == id)
      sessions := w.sessions.delete (·.userID == id)
      apiTokens := w.apiTokens.delete (·.userID == id) })
  | .touchLogin id time =>
    (.ok (), w.updateUsers id (fun u => { u with lastLogin := some time }) fun _ => rfl)
  | .insertSession s =>
    match w.sessionConflict s with
    | some text => (.error (.driver text), w)
    | none => (.ok (), { w with
        sessions := w.sessions.insert (fun id => { s with id }) fun _ => rfl })
  | .selectSessionUser hash now =>
    (.ok ((w.sessions.rows.find? fun s => s.tokenHash == hash && now < s.expiresAt).bind
      fun s => w.users.get? s.userID), w)
  | .deleteSession hash =>
    (.ok (), { w with sessions := w.sessions.delete (·.tokenHash == hash) })
  | .deleteUserSessions userID =>
    (.ok (), { w with sessions := w.sessions.delete (·.userID == userID) })
  | .purgeExpiredSessions now =>
    (.ok (w.sessions.count (·.expiresAt ≤ now)),
      { w with sessions := w.sessions.delete (·.expiresAt ≤ now) })
  | .insertAPIToken t =>
    match w.tokenConflict t with
    | some text => (.error (.driver text), w)
    | none => (.ok (w.apiTokens.seq + 1), { w with
        apiTokens := w.apiTokens.insert
          (fun id => { t with id, lastUsedAt := none, revoked := false }) fun _ => rfl })
  | .selectAPIToken id => (.ok (w.apiTokens.get? id), w)
  | .lookupAPIToken hash =>
    (.ok (w.apiTokens.rows.find? fun t => t.tokenHash == hash && !t.revoked), w)
  | .touchAPIToken id time =>
    (.ok (), w.updateTokens id (fun t => { t with lastUsedAt := some time }) fun _ => rfl)
  | .listAPITokens userID =>
    (.ok ((w.apiTokens.rows.filter fun t => userID == 0 || t.userID == userID).insertionSort
      fun a b => b.createdAt ≤ a.createdAt), w)
  | .revokeAPIToken id =>
    (.ok (w.apiTokens.count (·.id == id)),
      w.updateTokens id (fun t => { t with revoked := true }) fun _ => rfl)
  | .insertAuthFailure key time =>
    (.ok (), { w with authFailures := w.authFailures ++ [⟨key, time⟩] })
  | .recentAuthFailures key since limit =>
    (.ok ((((w.authFailures.filter fun f => f.key == key && since < f.time).map
      AuthFailure.time).insertionSort (· ≤ ·)).take limit), w)
  | .clearAuthFailures key =>
    (.ok (), { w with authFailures := w.authFailures.filter (·.key != key) })
  | .purgeAuthFailures before =>
    (.ok (w.authFailures.countP (·.time ≤ before)),
      { w with authFailures := w.authFailures.filter fun f => !(f.time ≤ before) })

/-- What the host answers. -/
def hostExec [Bcrypt] (e : Env) : (s : HostStmt) → s.Res
  | .now => e.now
  | .randomToken => e.fault.answer (.ok e.token)
  | .hashPassword password => Bcrypt.generate password e.token
  | .comparePassword hash password => Bcrypt.compare hash password
  | .ldapAuthenticate _ _ => e.identity
  | .oidcExchange _ _ => e.identity
  | .saveConfig _ => e.fault.answer (.ok ())
  | .audit _ _ _ _ _ => ()
  | .actAs _ _ => ()

/-- **One statement**. -/
def exec [Bcrypt] : Interleave.Sem sig Env World := fun e w s =>
  match s with
  | .db s => some (e.fault.apply w (w.exec e.pick s))
  | .host s => some (hostExec e s, w)

/-! ## Package store -/

variable {ε : Type}

/-- Ask one statement over the tables. -/
def db (s : DbStmt) : Handler Go.Error s.Res := ExceptT.mk (.ask (.db s) .pure)

/-- Ask the host. -/
def host (s : HostStmt) : Handler ε s.Res := ExceptT.mk (.ask (.host s) fun x => .pure (.ok x))

/-- `time.Now()`. -/
def now : Handler ε Instant := host .now

/-- `GetUser` fetches a user by ID. -/
def getUser (id : Nat) : Handler Go.Error User := (db (.selectUser id)).mapResult Store.row

/-- `GetUserByName` fetches a user by username (case-insensitive). -/
def getUserByName (name : String) : Handler Go.Error User :=
  (db (.selectUserByName name)).mapResult Store.row

/-- `ListUsers` returns all known users. -/
def listUsers : Handler Go.Error (List User) := db .listUsers

/-- One attempt of `UpsertUser`: refresh the row that has the name, or insert one. -/
def upsertUserOnce (u : User) : Handler Go.Error User := do
  let existing ← (getUserByName u.username).attempt
  match existing with
  | .ok existing => do
    db (.updateUser existing.id u.source (Store.nz u.displayName existing.displayName)
      (Store.nz u.email existing.email) (Store.nz u.role existing.role))
    getUser existing.id
  | .error err =>
    if err.isNotFound then do
      let id ← db (.insertUser { u with role := Store.nz u.role roleUser })
      getUser id
    else throw err

/-- `UpsertUser` creates or refreshes a user record. An attempt that fails where the name is there
by now is made once more. -/
def upsertUser (u : User) : Handler Go.Error User := do
  let out ← (upsertUserOnce u).attempt
  match out with
  | .ok u => pure u
  | .error err => do
    let present ← (getUserByName u.username).attempt
    match present with
    | .ok _ => upsertUserOnce u
    | .error _ => throw err

/-- `SetUserRole` changes a user's role. -/
def setUserRole (id : Nat) (role : String) : Handler Go.Error Unit := db (.setUserRole id role)

/-- `SetUserDisabled` enables or disables an account. -/
def setUserDisabled (id : Nat) (disabled : Bool) : Handler Go.Error Unit :=
  db (.setUserDisabled id disabled)

/-- `SetUserPassword` stores a bcrypt hash for a local user. -/
def setUserPassword (id : Nat) (hash : String) : Handler Go.Error Unit :=
  db (.setUserPassword id hash)

/-- `DeleteUser` removes a user account. -/
def deleteUser (id : Nat) : Handler Go.Error Unit :=
  (db (.deleteUser id)).mapResult Store.affected

/-- `TouchLogin` records a successful login timestamp. -/
def touchLogin (id : Nat) : Handler Go.Error Unit := do
  let t ← now
  db (.touchLogin id t)

/-- `SessionUser` resolves a session token hash to its user. -/
def sessionUser (hash : TokenHash) : Handler Go.Error User := do
  let t ← now
  (db (.selectSessionUser hash t)).mapResult Store.row

/-- `PurgeExpiredSessions` deletes stale sessions and returns how many went away. -/
def purgeExpiredSessions : Handler Go.Error Nat := do
  let t ← now
  db (.purgeExpiredSessions t)

/-- The row of a query whose caller keeps `sql.ErrNoRows`. -/
def scanned {α : Type} : Except Go.Error (Option α) → Except Go.Error α
  | .ok (some a) => .ok a
  | .ok none => .error (.driver "sql: no rows in result set")
  | .error e => .error e

/-- `CreateAPIToken` stores a new bearer token record. -/
def createAPIToken (t : APIToken) : Handler Go.Error APIToken := do
  let createdAt ← now
  let id ← db (.insertAPIToken { t with role := Store.nz t.role roleUser, createdAt })
  (db (.selectAPIToken id)).mapResult scanned

/-- Whether a token has expired; the clock is read only where it can. -/
def expired : Option Instant → Handler ε Bool
  | none => pure false
  | some expiresAt => do
    let t ← now
    pure (decide (expiresAt < t))

/-- `LookupAPIToken` resolves a token hash to its record and owner. -/
def lookupAPIToken (hash : TokenHash) : Handler Go.Error (APIToken × User) := do
  let t ← (db (.lookupAPIToken hash)).mapResult Store.row
  let past ← expired t.expiresAt
  Interleave.Act.failIf (past = true) .notFound
  let u ← getUser t.userID
  let used ← now
  let _ ← (db (.touchAPIToken t.id used)).attempt
  pure (t, u)

/-- `ListAPITokens` lists tokens, those of one owner or, for zero, all. -/
def listAPITokens (userID : Nat) : Handler Go.Error (List APIToken) := db (.listAPITokens userID)

/-- `RevokeAPIToken` disables a bearer token. -/
def revokeAPIToken (id : Nat) : Handler Go.Error Unit :=
  (db (.revokeAPIToken id)).mapResult Store.affected

end Goca.Auth
