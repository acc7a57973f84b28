import Goca.Auth.Web

/-!
# Everything that happens to the accounts

The requests, the commands on the server host and the work of the process itself, as one type: what
any number of replicas have in progress at a time is a list of these.
-/

set_option autoImplicit false

namespace Goca.Auth

open Interleave (Act Prog Pool)
open Interleave.Act (failIf)

/-- A command on the server host. -/
inductive Command
  | userAdd (body : UserRequest)
  | userRole (username role : String)
  | userPasswd (username password : String)
  | userDisable (username : String) (enable : Bool)
  | userDelete (username : String)
  | tokenCreate (owner name role : String) (days : Int)
  | tokenRevoke (id : String)
  deriving Repr, DecidableEq

/-- What a command does once the database is open. -/
def Command.run (m : Manager) (actor : String) : Command → Handler Go.Error Unit
  | .userAdd body => do
    let u ← createLocalUser body.username body.password body.displayName body.email body.role
    audit actor "user.create" u.username ("role=" ++ u.role) ""
  | .userRole username role => do
    let u ← getUserByName username
    failIf (role ≠ roleAdmin ∧ role ≠ roleUser) (.new ("role must be " ++ Go.quote roleUser ++
      " or " ++ Go.quote roleAdmin))
    setUserRole u.id role
    audit actor "user.role" u.username role ""
  | .userPasswd username password => do
    let u ← getUserByName username
    m.setPassword u password
    audit actor "user.password_change" u.username "cli" ""
  | .userDisable username enable => do
    let u ← getUserByName username
    setUserDisabled u.id !enable
    endSessions (!enable) u.id
    audit actor "user.disable" u.username (if enable then "enabled" else "disabled") ""
  | .userDelete username => do
    let u ← getUserByName username
    deleteUser u.id
    audit actor "user.delete" u.username "" ""
  | .tokenCreate owner name role n => do
    let owner := if owner = "" then m.localAdminUsername else owner
    let u ← (getUserByName owner).mapError
      fun err => .wrap ("owner " ++ Go.quote owner ++ ": ") err ""
    failIf (n < 0) (.new "--days must be 0 (never expires) or positive")
    host (.actAs u .operator)
    let (_, rec) ← issueAPIToken u name role (days n)
    audit actor "token.create" rec.name ("role=" ++ rec.role) ""
  | .tokenRevoke id =>
    match pathNumber id with
    | none => throw (.new (Go.quote id ++ " is not a token id (see `goca token list`)"))
    | some n => do
      revokeAPIToken n
      audit actor "token.revoke" id "" ""

/-- What happens to the accounts. -/
inductive Op
  /-- An endpoint of the API that is not about accounts. -/
  | api (adminOnly : Bool)
  /-- A page that is not about accounts. -/
  | page
  | apiTokenList
  | apiTokenCreate (body : Except String TokenRequest)
  | apiTokenRevoke (path : String)
  | apiUserList
  | apiUserCreate (body : Except String UserRequest)
  | apiUserPatch (ref : String) (body : Except String UserPatch)
  | apiUserDelete (ref : String)
  | apiAuthLogin (body : Except String LoginRequest)
  | handleLoginSubmit (username password : String)
  | handleOIDCCallback (c : Callback)
  | handleLogout
  | handleTokenCreate (body : TokenRequest)
  | handleTokenRevoke (path : String)
  | handleUserCreate (body : UserRequest)
  | handleUserRole (path role : String)
  | handleUserDisable (path : String) (disabled : Bool)
  | handleUserDelete (path : String)
  | handleChangePassword (current next : String)
  /-- The start of the server. -/
  | start (la : LocalAdmin)
  /-- The work of the janitor. -/
  | purgeExpired
  /-- A command: it opens the database first, with the configuration as it is then. -/
  | cli (la : LocalAdmin) (actor : String) (c : Command)

/-- The start of the server: the local administrator, then the expired sessions. -/
def start (la : LocalAdmin) : Handler Go.Error Unit := do
  (ensureLocalAdmin la).mapError fun err => .wrap "prepare local admin: " err ""
  let _ ← purgeExpiredSessions.attempt
  pure ()

/-- `purgeExpired` deletes rows that can no longer matter. -/
def purgeExpired : Handler Go.Error Unit := do
  let _ ← purgeExpiredSessions.attempt
  let _ ← purge.attempt
  pure ()

/-- A request or command, and the server it is made to. -/
structure Call where
  server : Server
  request : Request := {}
  op : Op

/-- A page or an API request, as it is answered. -/
def answering (x : Handler Reply Reply) : Prog sig Reply :=
  x.run.bind fun
    | .ok r => .pure r
    | .error r => .pure r

/-- A command or a part of the process, with its error. -/
def ending (x : Handler Go.Error Unit) : Prog sig Reply :=
  x.run.bind fun
    | .ok _ => .pure (.ended none)
    | .error err => .pure (.ended (some err))

/-- The program of a call. -/
def Call.serve [Go.Runtime] (c : Call) : Prog sig Reply :=
  let s := c.server
  let r := c.request
  match c.op with
  | .api adminOnly => answering (apiAuth (fun _ => pure .other) adminOnly r)
  | .page => answering (requireUser (fun _ => pure .other) r)
  | .apiTokenList => answering (apiAuth apiTokenList false r)
  | .apiTokenCreate body => answering (apiAuth (apiTokenCreate body r) false r)
  | .apiTokenRevoke path => answering (apiAuth (apiTokenRevoke path) false r)
  | .apiUserList => answering (apiAuth apiUserList true r)
  | .apiUserCreate body => answering (apiAuth (apiUserCreate body r) true r)
  | .apiUserPatch ref body => answering (apiAuth (s.apiUserPatch ref body r) true r)
  | .apiUserDelete ref => answering (apiAuth (apiUserDelete ref r) true r)
  | .apiAuthLogin body => answering ((s.apiAuthLogin body r).mapError renderAPIError)
  | .handleLoginSubmit username password => answering (s.handleLoginSubmit username password r)
  | .handleOIDCCallback c => answering (s.handleOIDCCallback c r)
  | .handleLogout => answering (handleLogout r)
  | .handleTokenCreate body => answering (requireUser (handleTokenCreate body r) r)
  | .handleTokenRevoke path => answering (requireUser (handleTokenRevoke path r) r)
  | .handleUserCreate body => answering (requireAdmin (handleUserCreate body r) r)
  | .handleUserRole path role => answering (requireAdmin (handleUserRole path role r) r)
  | .handleUserDisable path disabled =>
    answering (requireAdmin (handleUserDisable path disabled r) r)
  | .handleUserDelete path => answering (requireAdmin (handleUserDelete path r) r)
  | .handleChangePassword current next =>
    answering (requireUser (s.handleChangePassword current next r) r)
  | .start la => ending (start la)
  | .purgeExpired => ending purgeExpired
  | .cli la actor command => ending (ensureLocalAdmin la >>= fun _ => command.run s.auth actor)

/-- The calls that are in progress over a world, none of which has asked anything yet. -/
def serving [Go.Runtime] (w : World) (calls : List Call) : Pool sig Reply World :=
  .init w (calls.map Call.serve)

/-! ## A small installation -/

/-- A server with local accounts only. -/
def portal : Server where
  auth := {
    mode := .modeLocal, ldapEnabled := false, oidcEnabled := false, localAdminUsername := "root"
    path := "", sessionTTL := 3600 }
  apiLoginTokenTTL := 0
  apiLoginTokenMaxDays := 0

/-- Everything happens at one instant, and randomness gives one text. -/
def atOnce : Env where
  now := 0
  token := "t"

end Goca.Auth
