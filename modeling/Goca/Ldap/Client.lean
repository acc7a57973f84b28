import Goca.Lib.Prog
import Goca.Pki.Subject

/-!
# The LDAP client

`Authenticate` of package ldapauth. It finds the entry of a user, or writes the name into a template,
binds as that entry with the password, reads the groups of the user, and maps them onto the role of an
administrator. What it asks of the directory and of the host is a statement each; nothing is assumed
of their answers.
-/

set_option autoImplicit false

namespace Goca.Ldap

open Interleave (Act Sig)
open Interleave.Act

/-- What package ldap and package x509 decide: how a text is escaped in a filter and in a DN, and
whether a PEM file holds a certificate. -/
class Library where
  /-- `ldap.EscapeFilter`. -/
  escapeFilter : String → String
  /-- `ldap.EscapeDN`. -/
  escapeDN : String → String
  /-- `CertPool.AppendCertsFromPEM`. -/
  appendCertsFromPEM : String → Bool

/-- `config.LDAPConfig`, as far as a sign-in reads it. -/
structure LDAPConfig where
  enabled : Bool
  url : String
  startTLS : Bool
  insecureSkipVerify : Bool
  caCertFile : String
  bindDN : String
  baseDN : String
  userFilter : String
  userDNTemplate : String
  attrUsername : String
  attrDisplayName : String
  attrEmail : String
  groupBaseDN : String
  groupFilter : String
  attrGroup : String
  adminGroups : List String
  allowedGroups : List String
  /-- In nanoseconds. -/
  timeout : Int
  deriving Repr, DecidableEq

/-- What a successful directory lookup yields. -/
structure Identity where
  username : String
  dn : String := ""
  displayName : String := ""
  email : String := ""
  groups : List String := []
  isAdmin : Bool := false
  deriving Repr, DecidableEq

/-! ## The directory -/

/-- `tls.Config`: the name of the server, and the PEM file of its authorities, if there is one. -/
structure TLSConfig where
  serverName : String
  insecureSkipVerify : Bool
  rootCAs : Option String
  deriving Repr, DecidableEq

/-- `ldap.NewSearchRequest` over a whole subtree. -/
structure SearchRequest where
  baseDN : String
  sizeLimit : Nat
  timeLimit : Int
  filter : String
  attributes : List String
  deriving Repr, DecidableEq

/-- `ldap.Entry`: its DN, and what `GetAttributeValues` returns. -/
structure Entry where
  dn : String
  getAttributeValues : String → List String

/-- `Entry.GetAttributeValue`: the first value of the attribute, or the empty text. -/
def Entry.getAttributeValue (e : Entry) (attr : String) : String :=
  (e.getAttributeValues attr).headD ""

/-- An error of a bind, and whether its code is `LDAPResultInvalidCredentials`. -/
structure BindError where
  invalidCredentials : Bool
  error : Go.Error
  deriving Repr, DecidableEq

/-- What a sign-in asks. -/
inductive Stmt
  | readFile (path : String)
  | dialURL (url : String) (tls : TLSConfig) (timeout : Int)
  | startTLS (tls : TLSConfig)
  | bind (dn password : String)
  | search (request : SearchRequest)
  deriving Repr, DecidableEq

/-- What it is answered. -/
def Stmt.Ans : Stmt → Type
  | readFile _ => Except Go.Error String
  | dialURL _ _ _ => Except Go.Error Unit
  | startTLS _ => Except Go.Error Unit
  | bind _ _ => Except BindError Unit
  | search _ => Except Go.Error (List Entry)

/-- The signature of a sign-in. -/
def sig : Sig := ⟨Stmt, Stmt.Ans⟩

/-- A part of a sign-in. -/
abbrev Handler := Act sig Go.Error

/-- `os.ReadFile`. -/
def readFile (path : String) : Handler String := ExceptT.mk (.ask (.readFile path) .pure)

/-- `ldap.DialURL`. -/
def dialURL (url : String) (tls : TLSConfig) (timeout : Int) : Handler Unit :=
  ExceptT.mk (.ask (.dialURL url tls timeout) .pure)

/-- `Conn.StartTLS`. -/
def startTLS (tls : TLSConfig) : Handler Unit := ExceptT.mk (.ask (.startTLS tls) .pure)

/-- `Conn.Bind`. -/
def bind (dn password : String) : Act sig BindError Unit :=
  ExceptT.mk (.ask (.bind dn password) .pure)

/-- `Conn.Search`: the entries of the result. -/
def search (request : SearchRequest) : Handler (List Entry) :=
  ExceptT.mk (.ask (.search request) .pure)

/-! ## Groups -/

section Groups

variable [Go.Runtime]

/-- `norm` of `matchesAny`. -/
def norm (s : String) : String := Go.toLower (Go.trimSpace s)

/-- `cn` of `matchesAny`: what follows `cn=` in the first part between commas that begins with it, or
the whole text. -/
def cn (s : String) : String :=
  let parts := (Go.split s ',').map Go.trimSpace
  match parts.find? fun p => Go.hasPrefix (Go.toLower p) "cn=" with
  | some p => norm (.ofList (Pki.dropBytes 3 p.toList))
  | none => norm s

/-- `matchesAny` compares group values case-insensitively against a wanted list. Both full DNs and
bare CNs are accepted on either side. -/
def matchesAny (have_ want : List String) : Bool :=
  if have_.isEmpty || want.isEmpty then false
  else
    let set := have_.flatMap fun h => [norm h, cn h]
    want.any fun w => set.contains (norm w) || set.contains (cn w)

end Groups

/-! ## The client -/

/-- `ErrInvalidCredentials`. -/
def errInvalidCredentials : Go.Error := .new "invalid username or password"

/-- `ErrNotAllowed`. -/
def errNotAllowed : Go.Error := .new "account is not a member of any permitted group"

/-- `firstNonEmpty`. -/
def firstNonEmpty (vals : List String) : String :=
  (vals.find? fun v => Go.trimSpace v ≠ "").getD ""

/-- `Client`: the configuration, and the password of the service account. -/
structure Client where
  cfg : LDAPConfig
  bindPassword : String
  deriving Repr, DecidableEq

namespace Client

variable (c : Client)

/-- `Enabled` reports whether LDAP is configured. -/
def enabled : Bool := c.cfg.enabled && c.cfg.url != ""

/-- `timeout`: ten seconds, unless the configuration says otherwise. -/
def timeout : Int := if c.cfg.timeout > 0 then c.cfg.timeout else 10000000000

/-- `int(c.timeout().Seconds())`. -/
def timeLimit : Int := c.timeout.tdiv 1000000000

/-- The host of the URL: what is between `://` and the next colon. -/
def serverName : String :=
  let url := c.cfg.url.toList
  let host := ((url.tails.find? ("://".toList.isPrefixOf ·)).map (·.drop 3)).getD url
  .ofList (host.takeWhile (· != ':'))

variable [Library]

/-- `tlsConfig`. -/
def tlsConfig : Handler TLSConfig :=
  let tc : TLSConfig := ⟨c.serverName, c.cfg.insecureSkipVerify, none⟩
  if c.cfg.caCertFile = "" then pure tc
  else do
    let pem ← (readFile c.cfg.caCertFile).mapError fun e => .wrap "read ldap ca_cert_file: " e ""
    failIf (Library.appendCertsFromPEM pem = false)
      (.new ("no certificates found in " ++ c.cfg.caCertFile))
    pure { tc with rootCAs := some pem }

/-- `connect` dials the directory and applies StartTLS when requested. -/
def connect : Handler Unit := do
  failIf (c.enabled = false) (.new "LDAP is not enabled in the configuration")
  let tc ← c.tlsConfig
  (dialURL c.cfg.url tc c.timeout).mapError fun e => .wrap ("connect to " ++ c.cfg.url ++ ": ") e ""
  if c.cfg.startTLS then
    (startTLS tc).mapError fun e => .wrap ("StartTLS to " ++ c.cfg.url ++ ": ") e ""
  else pure ()

omit [Library] in
/-- `bindService` binds as the configured service account, if one is set. -/
def bindService : Handler Unit :=
  if c.cfg.bindDN = "" then pure ()
  else (bind c.cfg.bindDN c.bindPassword).mapError fun e =>
    .wrap ("bind as service account " ++ c.cfg.bindDN ++ ": ") e.error ""

/-- The request of `searchUser`. -/
def userRequest (username : String) : SearchRequest where
  baseDN := c.cfg.baseDN
  sizeLimit := 2
  timeLimit := c.timeLimit
  filter :=
    let filter := if c.cfg.userFilter = "" then "(uid=%s)" else c.cfg.userFilter
    Go.replaceAll filter "%s" (Library.escapeFilter username)
  attributes :=
    "dn" :: [c.cfg.attrUsername, c.cfg.attrDisplayName, c.cfg.attrEmail, "memberOf"].filter (· ≠ "")

omit [Library] in
/-- The identity that an entry gives. -/
def identity (username : String) (e : Entry) : Identity where
  dn := e.dn
  username := firstNonEmpty [e.getAttributeValue c.cfg.attrUsername, username]
  displayName :=
    if c.cfg.attrDisplayName ≠ "" then e.getAttributeValue c.cfg.attrDisplayName else ""
  email := if c.cfg.attrEmail ≠ "" then e.getAttributeValue c.cfg.attrEmail else ""
  -- Active Directory publishes memberOf directly on the user entry.
  groups := e.getAttributeValues "memberOf"

/-- `searchUser` finds a user entry with the configured filter. -/
def searchUser (username : String) : Handler Identity := do
  let entries ← (search (c.userRequest username)).mapError fun e =>
    .wrap ("search for user " ++ Go.quote username ++ ": ") e ""
  match entries with
  | [] => throw errInvalidCredentials
  | [e] => pure (c.identity username e)
  | _ => throw (.new ("user filter matched " ++ toString entries.length ++ " entries for " ++
      Go.quote username ++ "; make it more specific"))

omit [Library] in
/-- The attribute of a group that is a value beside its DN. -/
def groupAttribute : String := if c.cfg.attrGroup = "" then "cn" else c.cfg.attrGroup

/-- The request of `searchGroups`. -/
def groupRequest (userDN username : String) : SearchRequest where
  baseDN := c.cfg.groupBaseDN
  sizeLimit := 0
  timeLimit := c.timeLimit
  filter :=
    let filter := Go.replaceAll c.cfg.groupFilter "%d" (Library.escapeFilter userDN)
    let filter := Go.replaceAll filter "%s" (Library.escapeFilter userDN)
    Go.replaceAll filter "%u" (Library.escapeFilter username)
  attributes := ["dn", c.groupAttribute]

omit [Library] in
/-- The values of a group: its DN, and its name unless that is empty. -/
def groupValues (e : Entry) : List String :=
  let v := e.getAttributeValue c.groupAttribute
  if v ≠ "" then [e.dn, v] else [e.dn]

/-- `searchGroups` resolves group membership for a user DN. -/
def searchGroups (userDN username : String) : Handler (List String) := do
  let entries ← (search (c.groupRequest userDN username)).mapError fun e =>
    .wrap "group search: " e ""
  pure (entries.flatMap c.groupValues)

/-- Resolve the user DN, either by template or by searching. -/
def resolve (username : String) : Handler Identity :=
  let tmpl := Go.trimSpace c.cfg.userDNTemplate
  if tmpl ≠ "" then
    pure { username, dn := Go.replaceAll tmpl "%s" (Library.escapeDN username) }
  else do
    c.bindService
    c.searchUser username

/-- The groups of a user: those of the group search, where one is configured and succeeds. A failure
of the service account is passed over. -/
def readGroups (id : Identity) : Handler (List String) :=
  if c.cfg.groupBaseDN ≠ "" ∧ c.cfg.groupFilter ≠ "" then do
    let _ ← c.bindService.attempt
    let found ← (c.searchGroups id.dn id.username).attempt
    pure (match found with
      | .ok groups => groups
      | .error _ => id.groups)
  else pure id.groups

variable [Go.Runtime]

omit [Library] in
/-- The role of an identity: one of its groups or its own DN is among `admin_groups`. -/
def isAdmin (id : Identity) : Bool :=
  matchesAny id.groups c.cfg.adminGroups || matchesAny [id.dn] c.cfg.adminGroups

/-- `Authenticate` verifies a username and password and returns the directory identity, including
group membership and the derived admin flag. -/
def authenticate (username password : String) : Handler Identity := do
  failIf (Go.trimSpace username = "" ∨ password = "") errInvalidCredentials
  c.connect
  let id ← c.resolve username
  -- Verify the password with a bind as the user.
  (bind id.dn password).mapError fun e =>
    if e.invalidCredentials then errInvalidCredentials
    else .wrap ("bind as " ++ id.dn ++ ": ") e.error ""
  let groups ← c.readGroups id
  let id := { id with groups }
  let id := { id with isAdmin := c.isAdmin id }
  failIf (c.cfg.allowedGroups ≠ [] ∧ matchesAny id.groups c.cfg.allowedGroups = false ∧
    matchesAny [id.dn] c.cfg.allowedGroups = false) errNotAllowed
  pure { id with displayName := if id.displayName = "" then username else id.displayName }

end Client

end Goca.Ldap
