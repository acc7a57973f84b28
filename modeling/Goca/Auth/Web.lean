import Goca.Auth.Manager
import Goca.Go.Decimal

/-!
# Requests about accounts

Every way to come in and every request that changes accounts, sessions or tokens: the API, the
pages, the sign-ins, the commands on the server host and the work of the process itself. A request
that is let in goes on as some user on the strength of some credential; `actAs` marks where.
-/

set_option autoImplicit false

namespace Goca.Auth

open Interleave (Act Prog)
open Interleave.Act (failIf)

/-! ## Requests and replies -/

/-- What package web reads of the configuration. -/
structure Server where
  auth : Manager
  apiLoginTokenTTL : Duration
  apiLoginTokenMaxDays : Int
  deriving Repr, DecidableEq

/-- What an HTTP request brings beside its body. -/
structure Request where
  /-- The `Authorization` header. -/
  authorization : String := ""
  /-- The session cookie. -/
  cookie : Option String := none
  csrfCookie : Option String := none
  /-- The `X-CSRF-Token` header, or the form value in its place. -/
  csrfSent : String := ""
  /-- Whether the method is `GET` or `HEAD`. -/
  safe : Bool := false
  clientIP : String := ""
  deriving Repr, DecidableEq

/-- What the server answers. -/
inductive Reply
  /-- A JSON error. -/
  | refused (status : Nat) (msg : String) (detail : Option String)
  | status (text : String)
  | user (u : User)
  | users (us : List User)
  | token (plaintext : String) (rec : APIToken)
  | tokens (ts : List APIToken)
  | login (plaintext : String) (rec : APIToken) (u : User)
  /-- The answer of an endpoint that is not about accounts. -/
  | other
  | errorPage (status : Nat) (title : String)
  /-- A redirect to a page that shows a message. -/
  | flash (kind text : String)
  | loginPage (message : String)
  /-- A redirect with a new session cookie. -/
  | signedIn (cookie : String)
  | redirect (url : String)
  /-- A command or a part of the process that ended, with its error. -/
  | ended (err : Option Go.Error)
  deriving Repr, DecidableEq

/-- The error of an API handler: an `apiError`, or any other. -/
inductive ApiError
  | status (code : Nat) (msg : String) (err : Option Go.Error)
  | err (e : Go.Error)
  deriving Repr, DecidableEq

/-- `badRequest`. -/
def badRequest (msg : String) : ApiError := .status 400 msg none

/-- `badRequestFrom` wraps an error as 400. -/
def badRequestFrom (e : Go.Error) : ApiError := badRequest e.text

/-- `renderAPIError` writes a handler's error as a JSON problem response. -/
def renderAPIError : ApiError → Reply
  | .status code msg err => .refused code msg (err.map Go.Error.text)
  | .err e =>
    if e.isNotFound then .refused 404 "not found" none else .refused 400 e.text none

/-- A handler of the JSON API. -/
abbrev ApiHandler := Handler ApiError Reply

/-- A page handler: an early return is its error. -/
abbrev Page := Handler Reply Reply

/-- `decodeJSON`: the body, or the text of the decoder's error. -/
def decodeJSON {α : Type} (body : Except String α) : Except ApiError α :=
  body.mapError fun text => badRequest ("invalid JSON body: " ++ text)

/-- `AuditWithIP` records who did what, and never fails. -/
def audit {ε : Type} (actor action target detail ip : String) : Handler ε Unit :=
  host (.audit actor action target detail ip)

/-- The error of a store or manager call in an API handler. -/
def api {α : Type} (x : Handler Go.Error α) : Handler ApiError α := x.mapError .err

def apiBadRequest {α : Type} (x : Handler Go.Error α) : Handler ApiError α :=
  x.mapError badRequestFrom

/-! ## Who is calling -/

/-- `checkCSRF`: the double submit cookie. -/
def checkCSRF (r : Request) : Bool :=
  match r.csrfCookie with
  | none => false
  | some c => c != "" && r.csrfSent != "" && r.csrfSent == c

/-- The number in a path. No row has a number below one. -/
def pathNumber (path : String) : Option Nat := (Go.parseInt path).map Int.toNat

/-- `userFromRequest` resolves the session cookie of a request. -/
def userFromRequest {ε : Type} (r : Request) : Handler ε (Option User) :=
  match r.cookie with
  | none => pure none
  | some c =>
    if c = "" then pure none
    else do
      let found ← (userFromSession c).attempt
      pure found.toOption

section

variable [Go.Runtime]

/-- The caller of an API request: the owner of its bearer token, or of its portal session. -/
def apiCaller (r : Request) : Handler Reply (User × Credential) :=
  if Go.hasPrefix (Go.toLower r.authorization) "bearer " = true then do
    let token := Go.trimSpace (.ofList (r.authorization.toList.drop 7))
    let (u, t) ← (userFromAPIToken token).mapError fun _ =>
      .refused 401 "invalid or expired API token" none
    pure (u, .token t)
  else do
    let found ← userFromRequest r
    match found with
    | some u => do
      failIf (r.safe = false ∧ checkCSRF r = false)
        (.refused 403 "missing or invalid CSRF token" none)
      pure (u, .session)
    | none => throw (.refused 401
        "authentication required: send an Authorization: Bearer <token> header" none)

/-- `apiAuth` authenticates a JSON request by bearer token or portal session. -/
def apiAuth (h : User → ApiHandler) (adminOnly : Bool) (r : Request) : Handler Reply Reply := do
  let (u, credential) ← apiCaller r
  failIf (adminOnly = true ∧ u.isAdmin = false) (.refused 403 "administrator role required" none)
  host (.actAs u credential)
  (h u).mapError renderAPIError

end

/-- `requireUser` wraps a page handler so only authenticated users reach it. -/
def requireUser (next : User → Page) (r : Request) : Page := do
  let found ← userFromRequest r
  match found with
  | none => throw (.redirect "/login")
  | some u => do
    failIf (r.safe = false ∧ checkCSRF r = false)
      (.flash "error" "Your session token expired. Please try that again.")
    host (.actAs u .session)
    next u

/-- `requireAdmin` additionally enforces the admin role. -/
def requireAdmin (next : User → Page) (r : Request) : Page :=
  requireUser (fun u => do
    failIf (u.isAdmin = false) (.errorPage 403 "Administrator access required")
    next u) r

/-! ## The sign-in throttle -/

/-- How many failures a key may accumulate inside `loginFailWindow` before it is refused. -/
def loginFailLimit : Nat := 5

/-- The sliding window failures are counted over: fifteen minutes. -/
def loginFailWindow : Duration := 15 * 60 * 1000000000

/-- How long the failures of a key still refuse it. -/
def waitFor (t : Instant) (recent : List Instant) : Duration :=
  match recent with
  | [] => 0
  | first :: _ =>
    if recent.length < loginFailLimit then 0
    else if 0 < first + loginFailWindow - t then first + loginFailWindow - t
    else 0

section

variable {ε : Type}

/-- `retryAfter` reports how long a key must wait before its next attempt, or 0. A database error
fails open. -/
def retryAfter (key : String) : Handler ε Duration := do
  let t ← now
  let recent ← (db (.recentAuthFailures key (t - loginFailWindow) loginFailLimit)).attempt
  match recent with
  | .error _ => pure 0
  | .ok recent => pure (waitFor t recent)

/-- `Fail` records one failure for a key. -/
def fail (key : String) : Handler ε Unit := do
  let t ← now
  let _ ← (db (.insertAuthFailure key t)).attempt
  pure ()

/-- `Reset` forgets a key's failures. -/
def reset (key : String) : Handler ε Unit := do
  let _ ← (db (.clearAuthFailures key)).attempt
  pure ()

/-- `Purge` drops failures that no longer count towards any window. -/
def purge : Handler Go.Error Nat := do
  let t ← now
  db (.purgeAuthFailures (t - loginFailWindow))

/-- The key that failures of an account count under. -/
def userKey (username : String) : String := "user:" ++ username

/-- The key that failures from an address count under. -/
def ipKey (ip : String) : String := "ip:" ++ ip

/-- `loginThrottle` reports how long a sign-in for username from ip must wait. -/
def loginThrottle (username ip : String) : Handler ε Duration := do
  let wait ← retryAfter (userKey username)
  if 0 < wait then pure wait else retryAfter (ipKey ip)

def loginFailed (username ip : String) : Handler ε Unit := do
  fail (userKey username)
  fail (ipKey ip)

def loginSucceeded (username ip : String) : Handler ε Unit := do
  reset (userKey username)
  reset (ipKey ip)

end

/-- The whole seconds of a duration, rounded up past it, as the messages give them. -/
def seconds (d : Duration) : Int := d / 1000000000 + 1

/-! ## Sign-ins -/

/-- The body of a sign-in through the API. -/
structure LoginRequest where
  username : String
  password : String
  tokenName : String := ""
  days : Int := 0
  deriving Repr, DecidableEq

/-- `loginTokenTTL` turns a requested lifetime in days into a duration. -/
def Server.loginTokenTTL (s : Server) (days : Int) : Except ApiError Duration :=
  if days < 0 then .error (badRequest "days cannot be negative")
  else if days = 0 then
    .ok (if s.apiLoginTokenTTL ≤ 0 then 30 * 24 * 3600 * 1000000000 else s.apiLoginTokenTTL)
  else if 0 < s.apiLoginTokenMaxDays ∧ s.apiLoginTokenMaxDays < days then
    .error (badRequest ("days is " ++ toString days ++
      ", which exceeds this server's maximum of " ++ toString s.apiLoginTokenMaxDays))
  else .ok (days * (24 * 3600 * 1000000000))

/-- The longest prefix of whole runes within a number of bytes. -/
def takeBytes : Nat → List Char → List Char
  | _, [] => []
  | n, c :: cs => if c.utf8Size ≤ n then c :: takeBytes (n - c.utf8Size) cs else []

/-- The name of a token that a sign-in mints. -/
def loginTokenName (requested : String) : String :=
  let name := Go.trimSpace requested
  let name := if name = "" then "gocactl login" else name
  if name.utf8ByteSize > 64 then .ofList (takeBytes 64 name.toList) else name

/-- The answer of the API to a sign-in that failed. -/
def loginRefusal (err : Go.Error) : ApiError :=
  if err = errDisabled then .status 403 "this account is disabled" none
  else if err = errInvalidCredentials then .status 401 "invalid username or password" none
  else .status 502 "the directory could not be reached" (some err)

/-- `apiAuthLogin` exchanges a username and password for an API token. -/
def Server.apiAuthLogin (s : Server) (body : Except String LoginRequest) (r : Request) :
    ApiHandler := do
  let body ← Act.ofExcept (decodeJSON body)
  let username := Go.trimSpace body.username
  let ip := r.clientIP
  failIf (username = "" ∨ body.password = "") (badRequest "username and password are required")
  failIf (s.auth.localEnabled = false ∧ s.auth.ldapEnabled = false)
    (badRequest ("password login is disabled on this server; sign in to the portal with SSO and " ++
      "create an API token under Settings instead"))
  let wait ← loginThrottle username ip
  if 0 < wait then do
    audit username "auth.login_throttled" username "via=api" ip
    throw (.status 429 ("too many failed sign-in attempts; try again in " ++
      toString (seconds wait) ++ "s") none)
  else do
    let ttl ← Act.ofExcept (s.loginTokenTTL body.days)
    let answer ← (s.auth.authenticate username body.password).attempt
    match answer with
    | .error err => do
      loginFailed username ip
      audit username "auth.login_failed" username ("via=api " ++ err.text) ip
      throw (loginRefusal err)
    | .ok u => do
      loginSucceeded username ip
      host (.actAs u .login)
      let (plaintext, rec) ← api (issueAPIToken u (loginTokenName body.tokenName) u.role ttl)
      audit u.username "auth.login" u.username
        ("via=api source=" ++ u.source.text ++ " role=" ++ u.role) ip
      audit u.username "token.create" rec.name ("role=" ++ rec.role ++ " via=login") ip
      pure (.login plaintext rec u)

/-- `finishLogin` creates a session for an already-authenticated user. -/
def Server.finishLogin (s : Server) (u : User) (r : Request) : Page := do
  host (.actAs u .login)
  let answer ← (s.auth.createSession u).attempt
  match answer with
  | .error err => throw (.loginPage ("Could not start a session: " ++ err.text))
  | .ok token => do
    audit u.username "auth.login" u.username
      ("source=" ++ u.source.text ++ " role=" ++ u.role) r.clientIP
    pure (.signedIn token)

/-- The message of the login page after a sign-in that failed. -/
def loginMessage (err : Go.Error) : String :=
  if err = errDisabled then "This account is disabled."
  else if err ≠ errInvalidCredentials then "Sign-in failed: " ++ err.text
  else "Invalid username or password."

/-- `handleLoginSubmit`, for the username and password of a form. -/
def Server.handleLoginSubmit (s : Server) (username password : String) (r : Request) : Page := do
  failIf (checkCSRF r = false) (.loginPage "Your login form expired. Please try again.")
  let username := Go.trimSpace username
  let wait ← loginThrottle username r.clientIP
  if 0 < wait then do
    audit username "auth.login_throttled" username "via=form" r.clientIP
    throw (.loginPage ("Too many failed sign-in attempts. Please try again in " ++
      toString (seconds wait) ++ " seconds."))
  else do
    let answer ← (s.auth.authenticate username password).attempt
    match answer with
    | .error err => do
      loginFailed username r.clientIP
      audit username "auth.login_failed" username err.text r.clientIP
      throw (.loginPage (loginMessage err))
    | .ok u => do
      loginSucceeded username r.clientIP
      s.finishLogin u r

/-- What the browser brings back from the provider. -/
structure Callback where
  /-- The state and the nonce of the cookie, if it can be decoded. -/
  expected : Option (String × String)
  /-- The `error` and `error_description` parameters. -/
  error : String := ""
  errorDescription : String := ""
  state : String := ""
  code : String := ""
  deriving Repr, DecidableEq

/-- The message of the login page when the provider's answer is no identity. -/
def exchangeMessage (err : Go.Error) : String :=
  if err = errNotAllowed then
    "Your account is not a member of any group permitted to sign in here."
  else "Sign-in failed."

/-- `handleOIDCCallback` completes a sign-in through the provider. -/
def Server.handleOIDCCallback (s : Server) (c : Callback) (r : Request) : Page := do
  failIf (s.auth.oidcEnabled = false) (.errorPage 404 "404 page not found")
  match c.expected with
  | none => throw (.loginPage
      "Your sign-in attempt expired or could not be verified. Please try again.")
  | some (state, nonce) => do
    failIf (c.error ≠ "") (.loginPage ("Sign-in was cancelled or failed: " ++
      (if c.errorDescription ≠ "" then c.errorDescription else c.error)))
    failIf (c.state = "" ∨ c.state ≠ state)
      (.loginPage "Your sign-in attempt could not be verified. Please try again.")
    failIf (c.code = "") (.loginPage "The SSO provider did not return an authorization code.")
    let answer ← host (.oidcExchange c.code nonce)
    match answer with
    | .error err => do
      audit "" "auth.oidc_failed" "" err.text r.clientIP
      throw (.loginPage (exchangeMessage err))
    | .ok id => do
      let synced ← (syncOIDCUser id).attempt
      match synced with
      | .error err => throw (.loginPage (if err = errDisabled then "This account is disabled."
          else "Sign-in failed: " ++ err.text))
      | .ok u => s.finishLogin u r

/-- `handleLogout` ends the session of a request. -/
def handleLogout (r : Request) : Page :=
  match r.cookie with
  | none => pure (.redirect "/login")
  | some c => do
    let found ← userFromRequest r
    match found with
    | none => pure ()
    | some u => audit u.username "auth.logout" u.username "" r.clientIP
    let _ ← (destroySession c).attempt
    pure (.redirect "/login")

/-! ## Tokens -/

/-- The lifetime of so many days; zero days are forever. A duration has 64 bits, so from 106752 days
on the product wraps around, which is not modelled. -/
def days (n : Int) : Duration := if 0 < n then n * (24 * 3600 * 1000000000) else 0

/-- The body of a token request. -/
structure TokenRequest where
  name : String
  role : String
  days : Int
  deriving Repr, DecidableEq

/-- `apiTokenList`. -/
def apiTokenList (u : User) : ApiHandler := do
  let ts ← api (listAPITokens (if u.isAdmin then 0 else u.id))
  pure (.tokens ts)

/-- `apiTokenCreate`. -/
def apiTokenCreate (body : Except String TokenRequest) (r : Request) (u : User) : ApiHandler := do
  let body ← Act.ofExcept (decodeJSON body)
  failIf (body.days < 0) (badRequest "days must be zero (never expires) or positive")
  let (plaintext, rec) ← apiBadRequest (issueAPIToken u body.name body.role (days body.days))
  audit u.username "token.create" rec.name ("role=" ++ rec.role) r.clientIP
  pure (.token plaintext rec)

/-- Whether a caller may revoke a token: an administrator any, everybody else the own ones. -/
def ownsToken {ε : Type} (u : User) (id : Nat) : Handler ε Bool :=
  if u.isAdmin then pure true
  else do
    let mine ← (listAPITokens u.id).attempt
    pure ((mine.toOption.getD []).any (·.id == id))

/-- `apiTokenRevoke`. -/
def apiTokenRevoke (path : String) (u : User) : ApiHandler := do
  match pathNumber path with
  | none => throw (badRequest (Go.quote path ++ " is not a valid id"))
  | some id => do
    let owned ← ownsToken u id
    failIf (owned = false) (.status 403 "you can only revoke your own tokens" none)
    api (revokeAPIToken id)
    pure (.status "revoked")

/-- `handleTokenCreate`. -/
def handleTokenCreate (body : TokenRequest) (r : Request) (u : User) : Page := do
  let (plaintext, rec) ←
    (issueAPIToken u (Go.trimSpace body.name) body.role (days body.days)).mapError
      fun err => .flash "error" err.text
  audit u.username "token.create" rec.name ("role=" ++ rec.role) r.clientIP
  pure (.token plaintext rec)

/-- `handleTokenRevoke`. -/
def handleTokenRevoke (path : String) (r : Request) (u : User) : Page := do
  match pathNumber path with
  | none => throw (.errorPage 400 "Bad token id")
  | some id => do
    let owned ← ownsToken u id
    failIf (owned = false) (.errorPage 403 "Not your token")
    (revokeAPIToken id).mapError fun err => .flash "error" err.text
    audit u.username "token.revoke" (toString id) "" r.clientIP
    pure (.flash "success" "Token revoked.")

/-! ## Accounts -/

/-- `pathUser` resolves a path segment to a user by numeric id, then by name. -/
def pathUser (ref : String) : Handler ApiError User := do
  failIf (ref = "") (badRequest "a user id or username is required")
  match pathNumber ref with
  | none => api (getUserByName ref)
  | some id => do
    let found ← (getUser id).attempt
    match found with
    | .ok u => pure u
    | .error _ => api (getUserByName ref)

/-- `isLastAdmin` guards against locking everyone out of the portal. -/
def isLastAdmin {ε : Type} (target : User) : Handler ε Bool :=
  if target.isAdmin = false then pure false
  else do
    let users ← listUsers.attempt
    match users with
    | .error _ => pure true
    | .ok users => pure (decide (users.countP (fun u => u.isAdmin && !u.disabled) ≤ 1))

/-- `cond && s.isLastAdmin(r, target)`: the administrators are counted only where it matters. -/
def andLastAdmin {ε : Type} (cond : Bool) (target : User) : Handler ε Bool :=
  if cond = true then isLastAdmin target else pure false

/-- The end of a disabled account's sessions, whose failure is ignored. -/
def endSessions {ε : Type} (disabled : Bool) (id : Nat) : Handler ε Unit :=
  if disabled = true then do
    let _ ← (db (.deleteUserSessions id)).attempt
    pure ()
  else pure ()

/-- A role as the handlers take it: anything but the administrator's is the user's. -/
def asRole (role : String) : String := if role ≠ roleAdmin then roleUser else role

/-- The body of a new account. -/
structure UserRequest where
  username : String
  password : String
  displayName : String := ""
  email : String := ""
  role : String := ""
  deriving Repr, DecidableEq

/-- The body of a change of an account. -/
structure UserPatch where
  role : Option String := none
  disabled : Option Bool := none
  password : Option String := none
  deriving Repr, DecidableEq

/-- `apiUserList`. -/
def apiUserList (_ : User) : ApiHandler := do
  let us ← api listUsers
  pure (.users us)

/-- `apiUserCreate`. -/
def apiUserCreate (body : Except String UserRequest) (r : Request) (caller : User) :
    ApiHandler := do
  let body ← Act.ofExcept (decodeJSON body)
  let u ← apiBadRequest
    (createLocalUser body.username body.password body.displayName body.email body.role)
  audit caller.username "user.create" u.username ("role=" ++ u.role) r.clientIP
  pure (.user u)

/-- The change of a role in `apiUserPatch`. -/
def patchRole (target : User) : Option String → Handler ApiError Unit
  | none => pure ()
  | some role => do
    let role := asRole role
    let last ← andLastAdmin (role == roleUser) target
    failIf (last = true) (badRequest "that is the last administrator; promote someone else first")
    api (setUserRole target.id role)

/-- The change of the disabled mark in `apiUserPatch`. -/
def patchDisabled (target : User) : Option Bool → Handler ApiError Unit
  | none => pure ()
  | some disabled => do
    let last ← andLastAdmin disabled target
    failIf (last = true) (badRequest "that is the last administrator; it cannot be disabled")
    api (setUserDisabled target.id disabled)
    endSessions disabled target.id

/-- The change of the password in `apiUserPatch`. -/
def Server.patchPassword (s : Server) (target : User) : Option String → Handler ApiError Unit
  | none => pure ()
  | some password => apiBadRequest (s.auth.setPassword target password)

/-- `apiUserPatch`: the target is read once, and its changes are made one after the other. -/
def Server.apiUserPatch (s : Server) (ref : String) (body : Except String UserPatch) (r : Request)
    (caller : User) : ApiHandler := do
  let target ← pathUser ref
  let body ← Act.ofExcept (decodeJSON body)
  patchRole target body.role
  patchDisabled target body.disabled
  s.patchPassword target body.password
  let updated ← api (getUser target.id)
  audit caller.username "user.update" updated.username "" r.clientIP
  pure (.user updated)

/-- `apiUserDelete`. -/
def apiUserDelete (ref : String) (r : Request) (caller : User) : ApiHandler := do
  let target ← pathUser ref
  let last ← isLastAdmin target
  failIf (last = true) (badRequest "that is the last administrator; it cannot be deleted")
  api (deleteUser target.id)
  audit caller.username "user.delete" target.username "" r.clientIP
  pure (.status "deleted")

/-- `lookupUser` resolves the id of a page's path. -/
def lookupUser (path : String) : Handler Reply User :=
  match pathNumber path with
  | none => throw (.errorPage 400 "Bad user id")
  | some id => (getUser id).mapError fun _ => .errorPage 404 "User not found"

/-- `handleUserCreate`. -/
def handleUserCreate (body : UserRequest) (r : Request) (caller : User) : Page := do
  let u ← (createLocalUser (Go.trimSpace body.username) body.password
    (Go.trimSpace body.displayName) (Go.trimSpace body.email) body.role).mapError
      fun err => .flash "error" err.text
  audit caller.username "user.create" u.username ("role=" ++ u.role) r.clientIP
  pure (.flash "success" ("Local user " ++ Go.quote u.username ++ " created."))

/-- `handleUserRole`. -/
def handleUserRole (path role : String) (r : Request) (caller : User) : Page := do
  let target ← lookupUser path
  let role := asRole role
  let last ← andLastAdmin (role == roleUser) target
  failIf (last = true)
    (.flash "error" "That is the last administrator; promote someone else first.")
  (setUserRole target.id role).mapError fun err => .flash "error" err.text
  audit caller.username "user.role" target.username role r.clientIP
  pure (.flash "success" (target.username ++ " is now " ++ role ++ "."))

/-- `handleUserDisable`. -/
def handleUserDisable (path : String) (disabled : Bool) (r : Request) (caller : User) : Page := do
  let target ← lookupUser path
  let last ← andLastAdmin disabled target
  failIf (last = true) (.flash "error" "That is the last administrator; it cannot be disabled.")
  (setUserDisabled target.id disabled).mapError fun err => .flash "error" err.text
  endSessions disabled target.id
  audit caller.username "user.disable" target.username ("disabled=" ++ toString disabled) r.clientIP
  pure (.flash "success" (target.username ++ (if disabled then " disabled." else " enabled.")))

/-- `handleUserDelete`. -/
def handleUserDelete (path : String) (r : Request) (caller : User) : Page := do
  let target ← lookupUser path
  let last ← isLastAdmin target
  failIf (last = true) (.flash "error" "That is the last administrator; it cannot be deleted.")
  (deleteUser target.id).mapError fun err => .flash "error" err.text
  audit caller.username "user.delete" target.username "" r.clientIP
  pure (.flash "success" ("User " ++ Go.quote target.username ++ " deleted."))

/-- `handleChangePassword`. -/
def Server.handleChangePassword (s : Server) (current next : String) (r : Request) (u : User) :
    Page := do
  let full ← (getUserByName u.username).mapError
    fun _ => .flash "error" "Your current password is incorrect."
  let correct ← host (.comparePassword full.passHash current)
  failIf (correct = false) (.flash "error" "Your current password is incorrect.")
  (s.auth.setPassword full next).mapError fun err => .flash "error" err.text
  audit u.username "user.password_change" u.username "" r.clientIP
  pure (.flash "success" "Password updated.")

end Goca.Auth
