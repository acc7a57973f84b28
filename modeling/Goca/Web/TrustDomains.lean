import Goca.K8s.Servers

/-!
# Trust domains in a server

The start of a server, which makes a row of the `csi` block of the configuration file and builds the
registry; `verifierFor`, which reads the row of a trust domain for every request and builds its
verifier again only when the fingerprint of the row has changed; the authentication of a workload
that rests on it; and the administration of the rows.
-/

set_option autoImplicit false

namespace Goca.K8s

open Goca.Auth (ApiError badRequest badRequestFrom decodeJSON)
open Goca.Secret (encryptAtRest)
open Goca.Web (CsiAuthMethodBody CsiAuthMethodView encryptReviewerToken pathID toCsiAuthMethodView)
open Interleave (Act Prog)

variable [Platform]

/-! ## The start -/

/-- Whether the `csi` block says enough to make a row of it. -/
def CSIConfig.complete (cfg : CSIConfig) : Bool :=
  !(cfg.issuerURL == "" && cfg.apiServerURL == "") &&
    !(cfg.apiServerURL != "" && cfg.issuerURL == "" && cfg.reviewerToken == "")

/-- `migrateLegacyCSIToRow` persists the `csi` block as the row `default` where there is no row. -/
def migrateLegacyCSIToRow (draw : Except Go.Error Nat) (cfg : CSIConfig) :
    Handler Go.Error Unit := do
  if cfg.enabled = false then pure ()
  else do
    let rows ← listK8sAuthMethods.mapError fun e => .wrap "list k8s auth methods: " e ""
    if rows ≠ [] then pure ()
    else if cfg.complete = false then pure ()
    else do
      let token ← Act.ofExcept ((encryptAtRest draw cfg.reviewerToken).mapError fun e =>
        .wrap "encrypt legacy reviewer token: " e "")
      let _ ← (createK8sAuthMethod {
        name := "default"
        audience := audienceOf cfg.audience
        issuerURL := cfg.issuerURL
        apiServerURL := cfg.apiServerURL
        caCert := cfg.caCert
        reviewerTokenEnc := token
        insecureSkipVerify := cfg.insecureSkipVerify
        createdBy := "migration" }).mapError fun e =>
          .wrap "create default trust domain row: " e ""

/-- The loop over the rows: every enabled one is registered. -/
def registerRows (reg : Registry) : List K8sAuthMethod → Except Go.Error Registry
  | [] => .ok reg
  | row :: rows =>
    if row.disabled = true then registerRows reg rows
    else match verifierFromRow row with
      | .error e => .error e
      | .ok v => registerRows (reg.setWithFingerprint row.name v (k8sRowFingerprint row)) rows

/-- What is registered where no row is: the verifier of the `csi` block. -/
def registerLegacy (cfg : CSIConfig) (reg : Registry) : Except Go.Error Registry :=
  if reg.len = 0 then
    (legacyCSIVerifier cfg).map fun
      | some v => reg.setWithFingerprint "default" v legacyConfigFingerprint
      | none => reg
  else .ok reg

/-- `buildK8sRegistry` builds the registry from every enabled row. -/
def buildK8sRegistry (cfg : CSIConfig) : Handler Go.Error Registry := do
  let rows ← listK8sAuthMethods.mapError fun e => .wrap "list k8s auth methods: " e ""
  let reg ← Act.ofExcept (registerRows .new rows)
  Act.ofExcept (registerLegacy cfg reg)

/-- `NewServer`, as far as the trust domains go. -/
def newServer (draw : Except Go.Error Nat) (cfg : CSIConfig) : ServerHandler Go.Error Nat := do
  (migrateLegacyCSIToRow draw cfg).embed.mapError fun e =>
    .wrap "migrate legacy CSI config: " e ""
  let k8s ← (buildK8sRegistry cfg).embed.mapError fun e =>
    .wrap "build Kubernetes ServiceAccount token verifiers: " e ""
  step (.serve { cfg, k8s })

/-! ## A request -/

/-- What `verifierFor` does with an enabled row. -/
def verifierForRow (p : Nat) (name : String) (row : K8sAuthMethod) :
    ServerHandler Go.Error (Option Verifier) := do
  let fp := k8sRowFingerprint row
  let cached ← step (.getWithFingerprint p name)
  match cached.filter (·.2 == fp) with
  | some (v, _) => pure (some v)
  | none =>
    match verifierFromRow row with
    | .error _ => do
      step (.remove p name)
      pure none
    | .ok built => do
      step (.setWithFingerprint p name built fp)
      pure (some built)

/-- What `verifierFor` does without a row: only the verifier of the `csi` block has none. -/
def verifierForNone (p : Nat) (name : String) : ServerHandler Go.Error (Option Verifier) := do
  let cached ← step (.getWithFingerprint p name)
  match cached.filter (·.2 == legacyConfigFingerprint) with
  | some (v, _) => pure (some v)
  | none => do
    step (.remove p name)
    pure none

/-- `verifierFor` returns the verifier for a trust domain, consistent with the shared database. -/
def verifierFor (p : Nat) (name : String) : ServerHandler Go.Error (Option Verifier) := do
  let found ← (getK8sAuthMethodByName name).embed.attempt
  match found with
  | .ok row =>
    if row.disabled = true then do
      step (.remove p name)
      pure none
    else verifierForRow p name row
  | .error e => if e.isNotFound = true then verifierForNone p name else throw e

/-- `refreshK8sRegistry` loads the verifier of a trust domain again after its row has changed. -/
def refreshK8sRegistry {ε : Type} (p : Nat) (name : String) : ServerHandler ε Unit := do
  let _ ← (verifierFor p name).attempt

/-- The trust domain that a request names in `X-Goca-Auth-Method`. -/
def authMethodOf (header : String) : String :=
  let method := Go.trimSpace header
  if method = "" then "default" else method

/-- The refusals of `apiAuthK8s`. -/
def lookupFailed : ApiError :=
  .status 503 "could not look up the CSI trust domain; try again" none

def unknownDomain (method : String) : ApiError :=
  .status 401 ("unknown CSI trust domain " ++ method ++
    ": no such k8s auth method is configured on this server") none

def tokenRequired : ApiError :=
  .status 401 "a Kubernetes ServiceAccount bearer token is required" none

def tokenRejected (e : Go.Error) : ApiError := .status 401 ("token rejected: " ++ e.text) none

/-- Whether an `Authorization` header holds a bearer token. -/
def isBearer [Go.Runtime] (authz : String) : Bool := Go.hasPrefix (Go.toLower authz) "bearer "

/-- The token of such a header. -/
def bearerToken (authz : String) : String := Go.trimSpace (.ofList (authz.toList.drop 7))

/-- `apiAuthK8s` authenticates a request by its service account token, under the verifier of the
trust domain that it names. -/
def apiAuthK8s [Go.Runtime] (p : Nat) (header authz : String) :
    ServerHandler ApiError Identity := do
  let method := authMethodOf header
  let verifier ← (verifierFor p method).mapError fun _ => lookupFailed
  match verifier with
  | none => throw (unknownDomain method)
  | some v => do
    Act.failIf (isBearer authz = false) tokenRequired
    let id ← (v.verify (bearerToken authz)).mapError tokenRejected
    pure { id with authMethod := method }

/-! ## Administration -/

/-- `apiCsiAuthMethodList`. -/
def apiCsiAuthMethodList : Handler ApiError (List CsiAuthMethodView) := do
  let rows ← listK8sAuthMethods.mapError .err
  pure (rows.map toCsiAuthMethodView)

/-- `apiCsiAuthMethodGet`. -/
def apiCsiAuthMethodGet (path : String) : Handler ApiError CsiAuthMethodView := do
  let id ← Act.ofExcept (pathID path)
  let row ← (getK8sAuthMethod id).mapError .err
  pure (toCsiAuthMethodView row)

/-- What `apiCsiAuthMethodCreate` does to the table: the name it was asked for, and the row. -/
def createdMethod (draw : Except Go.Error Nat) (body : Except String CsiAuthMethodBody)
    (user : String) : Handler ApiError (String × K8sAuthMethod) := do
  let input ← Act.ofExcept (decodeJSON (body.map CsiAuthMethodBody.decoded))
  Act.failIf (input.name = "") (badRequest "name is required")
  let token ← Act.ofExcept ((encryptReviewerToken draw input.reviewerToken).mapError fun e =>
    badRequest ("encrypt reviewer token: " ++ e.text))
  let row ← (createK8sAuthMethod {
    name := input.name
    audience := input.audience
    issuerURL := input.issuerURL
    apiServerURL := input.apiServerURL
    caCert := input.caCert
    reviewerTokenEnc := token
    insecureSkipVerify := input.insecureSkipVerify
    disabled := input.disabled
    createdBy := user }).mapError badRequestFrom
  pure (input.name, row)

/-- `apiCsiAuthMethodCreate`. -/
def apiCsiAuthMethodCreate (p : Nat) (draw : Except Go.Error Nat)
    (body : Except String CsiAuthMethodBody) (user : String) :
    ServerHandler ApiError CsiAuthMethodView := do
  let (name, row) ← (createdMethod draw body user).embed
  refreshK8sRegistry p name
  pure (toCsiAuthMethodView row)

/-- What `apiCsiAuthMethodUpdate` does to the table: the name that was read before it, and the
row. -/
def updatedMethod (draw : Except Go.Error Nat) (path : String)
    (body : Except String CsiAuthMethodBody) : Handler ApiError (String × K8sAuthMethod) := do
  let id ← Act.ofExcept (pathID path)
  let input ← Act.ofExcept (decodeJSON (body.map CsiAuthMethodBody.decoded))
  let existing ← (getK8sAuthMethod id).mapError .err
  let token ← Act.ofExcept ((encryptReviewerToken draw input.reviewerToken).mapError fun e =>
    badRequest ("encrypt reviewer token: " ++ e.text))
  let row ← (updateK8sAuthMethod {
    id
    name := existing.name
    audience := input.audience
    issuerURL := input.issuerURL
    apiServerURL := input.apiServerURL
    caCert := input.caCert
    reviewerTokenEnc := token
    insecureSkipVerify := input.insecureSkipVerify
    disabled := input.disabled }).mapError badRequestFrom
  pure (existing.name, row)

/-- Without the registry, the update is the one over the table alone. -/
theorem apiCsiAuthMethodUpdate_table (draw : Except Go.Error Nat) (path : String)
    (body : Except String CsiAuthMethodBody) :
    Web.apiCsiAuthMethodUpdate draw path body = (do
      let r ← updatedMethod draw path body
      Web.refreshK8sRegistry r.1
      pure (toCsiAuthMethodView r.2)) := by
  simp only [Web.apiCsiAuthMethodUpdate, updatedMethod, bind_assoc, pure_bind]

/-- `apiCsiAuthMethodUpdate`. -/
def apiCsiAuthMethodUpdate (p : Nat) (draw : Except Go.Error Nat) (path : String)
    (body : Except String CsiAuthMethodBody) : ServerHandler ApiError CsiAuthMethodView := do
  let (name, row) ← (updatedMethod draw path body).embed
  refreshK8sRegistry p name
  pure (toCsiAuthMethodView row)

/-- `apiCsiAuthMethodDisable`. A request without a body disables. -/
def apiCsiAuthMethodDisable (p : Nat) (path : String)
    (body : Option (Except String (Option Bool))) : ServerHandler ApiError Bool := do
  let id ← Act.ofExcept (pathID path)
  let body ← Act.ofExcept (match body with
    | none => .ok none
    | some body => decodeJSON body)
  let disabled := body.getD true
  let row ← (getK8sAuthMethod id).embed.mapError .err
  (setK8sAuthMethodDisabled id disabled).embed.mapError badRequestFrom
  refreshK8sRegistry p row.name
  pure disabled

/-- `apiCsiAuthMethodDelete` refuses while a binding of a secret names the trust domain. -/
def apiCsiAuthMethodDelete (p : Nat) (path : String) : ServerHandler ApiError Unit := do
  let id ← Act.ofExcept (pathID path)
  let row ← (getK8sAuthMethod id).embed.mapError .err
  let n ← (countSecretBindingsByAuthMethod row.name).attempt
  let n := n.toOption.getD 0
  Act.failIf (0 < n) (badRequest ("trust domain " ++ Go.quote row.name ++ " is referenced by " ++
    toString n ++ " secret binding(s); rebind or delete them first"))
  (deleteK8sAuthMethod id).embed.mapError badRequestFrom
  refreshK8sRegistry p row.name

/-! ## Calls -/

/-- What can happen to the processes: one is started, or one is asked something. -/
inductive Call
  | start (draw : Except Go.Error Nat) (cfg : CSIConfig)
  | authenticate (p : Nat) (header authz : String)
  | list (p : Nat)
  | get (p : Nat) (path : String)
  | create (p : Nat) (draw : Except Go.Error Nat) (body : Except String CsiAuthMethodBody)
    (user : String)
  | update (p : Nat) (draw : Except Go.Error Nat) (path : String)
    (body : Except String CsiAuthMethodBody)
  | disable (p : Nat) (path : String) (body : Option (Except String (Option Bool)))
  | delete (p : Nat) (path : String)

/-- What a call answers. -/
inductive Reply
  | started (p : Nat)
  | failed (err : Go.Error)
  | admitted (id : Identity)
  | refused (err : ApiError)
  | done

/-- The reply that an outcome becomes. -/
def Reply.of {ε α : Type} (err : ε → Reply) (ok : α → Reply) : Except ε α → Reply
  | .ok a => ok a
  | .error e => err e

/-- A handler whose outcome becomes a reply. -/
def replying {ε α : Type} (err : ε → Reply) (ok : α → Reply) (x : ServerHandler ε α) :
    Prog serverSig Reply :=
  x.run.bind fun r => .pure (.of err ok r)

/-- The program of a call. -/
def Call.answer [Go.Runtime] : Call → Prog serverSig Reply
  | start draw cfg => replying .failed .started (newServer draw cfg)
  | authenticate p header authz => replying .refused .admitted (apiAuthK8s p header authz)
  | list _ => replying .refused (fun _ => .done) apiCsiAuthMethodList.embed
  | get _ path => replying .refused (fun _ => .done) (apiCsiAuthMethodGet path).embed
  | create p draw body user =>
    replying .refused (fun _ => .done) (apiCsiAuthMethodCreate p draw body user)
  | update p draw path body =>
    replying .refused (fun _ => .done) (apiCsiAuthMethodUpdate p draw path body)
  | disable p path body =>
    replying .refused (fun _ => .done) (apiCsiAuthMethodDisable p path body)
  | delete p path => replying .refused (fun _ => .done) (apiCsiAuthMethodDelete p path)

end Goca.K8s
