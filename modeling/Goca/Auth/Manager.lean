import Goca.Auth.Store

/-!
# Package auth

Who may come in: passwords of local accounts, identities that a directory or a provider vouches
for, sessions and API tokens. A directory account is mirrored into the table of accounts under its
name, whatever account has that name.
-/

set_option autoImplicit false

namespace Goca.Auth

open Interleave (Act)
open Interleave.Act (failIf)

/-! ## Configuration -/

/-- `AuthMode` selects whether local password login is offered alongside the directory. -/
inductive AuthMode
  | modeLocal | modeLDAP | modeBoth
  deriving Repr, DecidableEq

/-- The break-glass account of the configuration file. -/
structure LocalAdmin where
  username : String
  passwordHash : String
  deriving Repr, DecidableEq

/-- What package auth reads of the configuration. The hash of the local administrator is read where
`EnsureLocalAdmin` runs, and may be another by then. -/
structure Manager where
  mode : AuthMode
  ldapEnabled : Bool
  oidcEnabled : Bool
  localAdminUsername : String
  /-- `cfg.Path`. -/
  path : String
  sessionTTL : Duration
  deriving Repr, DecidableEq

/-- `LocalEnabled` reports whether local password login is available. -/
def Manager.localEnabled (m : Manager) : Bool := m.mode == .modeLocal || m.mode == .modeBoth

/-! ## Errors -/

/-- `ErrInvalidCredentials`, of this package and of the directory client. -/
def errInvalidCredentials : Go.Error := .new "invalid username or password"

/-- `ErrDisabled` is returned when a known account has been disabled locally. -/
def errDisabled : Go.Error := .new "this account is disabled"

/-- `ErrNotAllowed`: the account is in no group that may sign in. -/
def errNotAllowed : Go.Error := .new "account is not a member of any permitted group"

/-! ## Signing in -/

/-- `EnsureLocalAdmin` mirrors the config's break-glass admin into the database. -/
def ensureLocalAdmin (la : LocalAdmin) : Handler Go.Error Unit :=
  if la.username = "" ∨ la.passwordHash = "" then pure ()
  else do
    let found ← (getUserByName la.username).attempt
    match found with
    | .error err =>
      if err.isNotFound then do
        let _ ← upsertUser {
          username := la.username
          source := .sourceLocal
          displayName := "Local administrator"
          role := roleAdmin
          passHash := la.passwordHash }
        pure ()
      else throw err
    | .ok u => do
      (if u.passHash ≠ la.passwordHash then setUserPassword u.id la.passwordHash else pure ())
      (if u.role ≠ roleAdmin then setUserRole u.id roleAdmin else pure ())

/-- The role that a directory account is refreshed with: that of the directory, or the one of an
administrator that is there already. -/
def syncedRole (isAdmin : Bool) (existing : Except Go.Error User) : String :=
  let role := if isAdmin then roleAdmin else roleUser
  match existing with
  | .ok u => if u.role = roleAdmin then roleAdmin else role
  | .error _ => role

/-- `syncDirectoryUser` mirrors an externally authenticated identity into the local user table. -/
def syncDirectoryUser (source : Source) (id : Identity) : Handler Go.Error User := do
  let existing ← (getUserByName id.username).attempt
  failIf (existing.toOption.any User.disabled = true) errDisabled
  let u ← upsertUser {
    username := id.username
    source
    displayName := id.displayName
    email := id.email
    role := syncedRole id.isAdmin existing }
  let _ ← (touchLogin u.id).attempt
  pure u

/-- The local account that a password is checked against, if there is one. -/
def Manager.localAccount (m : Manager) (username : String) : Handler Go.Error (Option User) :=
  if m.localEnabled then do
    let found ← (getUserByName username).attempt
    pure (found.toOption.filter fun u => u.source == .sourceLocal && u.passHash != "")
  else pure none

/-- The check of a password of a local account. -/
def authenticateLocal (u : User) (password : String) : Handler Go.Error User := do
  failIf (u.disabled = true) errDisabled
  let correct ← host (.comparePassword u.passHash password)
  failIf (correct = false) errInvalidCredentials
  let _ ← (touchLogin u.id).attempt
  pure u

/-- The sign-in through the directory. -/
def authenticateLDAP (username password : String) : Handler Go.Error User := do
  let answer ← host (.ldapAuthenticate username password)
  let id ← Act.ofExcept answer
  syncDirectoryUser .sourceLDAP id

/-- `Authenticate` verifies credentials against the configured sources and returns the (created or
refreshed) user record. -/
def Manager.authenticate (m : Manager) (username password : String) : Handler Go.Error User := do
  let username := Go.trimSpace username
  failIf (username = "" ∨ password = "") errInvalidCredentials
  -- Local first: a local account never reaches the directory.
  let account ← m.localAccount username
  match account with
  | some u => authenticateLocal u password
  | none =>
    if m.ldapEnabled then authenticateLDAP username password else throw errInvalidCredentials

/-- `SyncOIDCUser` mirrors a verified OIDC identity into the local user table. -/
def syncOIDCUser (id : Identity) : Handler Go.Error User := syncDirectoryUser .sourceOIDC id

/-! ## Sessions -/

/-- `CreateSession` issues a session token for a user. -/
def Manager.createSession (m : Manager) (u : User) : Handler Go.Error String := do
  let answer ← host .randomToken
  let tok ← Act.ofExcept answer
  let t ← now
  db (.insertSession { userID := u.id, tokenHash := hashToken tok, expiresAt := t + m.sessionTTL })
  pure tok

/-- `UserFromSession` resolves a session cookie value to a user. -/
def userFromSession (token : String) : Handler Go.Error User := do
  failIf (token = "") .notFound
  let u ← sessionUser (hashToken token)
  failIf (u.disabled = true) errDisabled
  pure u

/-- `DestroySession` logs a session out. -/
def destroySession (token : String) : Handler Go.Error Unit :=
  if token = "" then pure () else db (.deleteSession (hashToken token))

/-! ## API tokens -/

/-- `TokenPrefix` marks goca API tokens. -/
def tokenPrefix : String := "goca_"

/-- The role a token is minted with: the owner's, unless another is asked for. -/
def mintedRole (u : User) (role : String) : String := if role = "" then u.role else role

/-- When a token expires; only a zero TTL means never. -/
def expiry {ε : Type} (ttl : Duration) : Handler ε (Option Instant) :=
  if ttl ≠ 0 then do
    let t ← now
    pure (some (t + ttl))
  else pure none

/-- `IssueAPIToken` mints a bearer token. -/
def issueAPIToken (u : User) (name role : String) (ttl : Duration) :
    Handler Go.Error (String × APIToken) := do
  failIf (Go.trimSpace name = "") (.new "a token name is required")
  let role := mintedRole u role
  failIf (role = roleAdmin ∧ u.isAdmin = false) (.new "only admins can create admin tokens")
  let answer ← host .randomToken
  let body ← Act.ofExcept answer
  let answer ← host .randomToken
  let pre ← Act.ofExcept answer
  let plaintext := tokenPrefix ++ pre ++ "_" ++ body
  let expiresAt ← expiry ttl
  let saved ← createAPIToken {
    userID := u.id, name, tokenPrefix := pre, tokenHash := hashToken plaintext, role, expiresAt }
  pure (plaintext, saved)

/-- The user that a token acts as: its owner, capped by the token's own role. -/
def effective (t : APIToken) (u : User) : User :=
  if t.role ≠ roleAdmin then { u with role := t.role } else u

/-- `UserFromAPIToken` resolves a bearer token to its owner. -/
def userFromAPIToken (token : String) : Handler Go.Error (User × APIToken) := do
  let token := Go.trimSpace token
  failIf (token = "" ∨ Go.hasPrefix token tokenPrefix = false) .notFound
  let (t, u) ← lookupAPIToken (hashToken token)
  failIf (u.disabled = true) errDisabled
  pure (effective t u, t)

/-! ## Local users -/

/-- `ValidatePassword` enforces the minimum password policy. -/
def validatePassword (p : String) : Except Go.Error Unit :=
  if p.utf8ByteSize < 8 then .error (.new "password must be at least 8 characters")
  else if p.utf8ByteSize > 200 then .error (.new "password must be at most 200 characters")
  else .ok ()

/-- `HashPassword` produces a bcrypt hash. -/
def hashPassword (password : String) : Handler Go.Error String := do
  let answer ← host (.hashPassword password)
  Act.ofExcept answer

/-- `CreateLocalUser` adds a password-authenticated account. -/
def createLocalUser (username password displayName email role : String) :
    Handler Go.Error User := do
  failIf (Go.trimSpace username = "") (.new "username is required")
  Act.ofExcept (validatePassword password)
  let found ← (getUserByName username).attempt
  failIf (found.toOption.isSome = true) (.new ("user " ++ Go.quote username ++ " already exists"))
  let hash ← hashPassword password
  upsertUser {
    username
    source := .sourceLocal
    displayName
    email
    role := if role ≠ roleAdmin then roleUser else role
    passHash := hash }

/-- `SetPassword` changes a local account's password, and writes the one of the break-glass admin
back to the config file. -/
def Manager.setPassword (m : Manager) (u : User) (password : String) : Handler Go.Error Unit := do
  failIf (u.source ≠ .sourceLocal)
    (.new "passwords for directory accounts are managed in LDAP")
  Act.ofExcept (validatePassword password)
  let hash ← hashPassword password
  setUserPassword u.id hash
  if Go.equalFoldASCII u.username m.localAdminUsername = true ∧ m.path ≠ "" then do
    let answer ← host (.saveConfig hash)
    Act.ofExcept (answer.mapError fun err =>
      .wrap ("password changed, but writing " ++ m.path ++ " failed: ") err "")
  else pure ()

end Goca.Auth
