import Goca.Auth.Web
import Goca.Go.Json
import Goca.K8s.Store
import Goca.Vault.Service
import Goca.Webhooks.Dispatcher
import Goca.Webhooks.Ssrf

/-!
# Changes of webhooks, trust domains and secrets

`apiWebhookUpdate`, `apiCsiAuthMethodUpdate` and `apiSecretUpdate`. The first two decode the body of
a request into the struct that they share with the creation of their resource, where a field that
the body does not have is its zero value; the third decodes into pointers, and can tell.
-/

set_option autoImplicit false

namespace Goca.Secret

/-- What a `Box` writes of a plaintext under a nonce: both encrypted, in base64. -/
class Box where
  sealText : Nat → String → String

/-- `Prefix` marks a value as encrypted. -/
def boxPrefix : String := "enc:v1:"

/-- `IsEncrypted`. -/
def isEncrypted (value : String) : Bool := Go.hasPrefix value boxPrefix

/-- `EncryptString`, where `draw` is what `crypto/rand` answers. -/
def encryptString [Box] (draw : Except Go.Error Nat) (s : String) : Except Go.Error String :=
  if s = "" then .ok "" else draw.map fun nonce => boxPrefix ++ Box.sealText nonce s

/-- A value as it is stored: what is empty or encrypted is kept as it is. -/
def encryptAtRest [Box] (draw : Except Go.Error Nat) (value : String) : Except Go.Error String :=
  if value = "" ∨ isEncrypted value = true then .ok value else encryptString draw value

end Goca.Secret

namespace Goca.Web

open Goca.Auth (ApiError badRequest badRequestFrom decodeJSON pathNumber)
open Goca.Secret (Box encryptAtRest)
open Interleave (Act)

/-- `pathID`. -/
def pathID (path : String) : Except ApiError Nat :=
  match pathNumber path with
  | some id => .ok id
  | none => .error (badRequest (Go.quote path ++ " is not a valid id"))

/-! ## Webhooks -/

/-- `webhookInput` is the create and update request body. -/
structure WebhookInput where
  name : String := ""
  url : String := ""
  events : String := ""
  secret : String := ""
  disabled : Bool := false
  deriving Repr, DecidableEq

/-- What the JSON body of such a request mentions. -/
structure WebhookBody where
  name : Option String := none
  url : Option String := none
  events : Option String := none
  secret : Option String := none
  disabled : Option Bool := none
  deriving Repr, DecidableEq

/-- The struct that a body is decoded into: what it does not mention keeps its zero value. -/
def WebhookBody.decoded (b : WebhookBody) : WebhookInput where
  name := b.name.getD ""
  url := b.url.getD ""
  events := b.events.getD ""
  secret := b.secret.getD ""
  disabled := b.disabled.getD false

/-- `webhookView` is the JSON shape of a webhook, which leaves its key out. -/
structure WebhookView where
  id : Nat
  name : String
  url : String
  events : String
  disabled : Bool
  deriving Repr, DecidableEq

/-- `toWebhookView`. -/
def toWebhookView (w : Webhooks.Webhook) : WebhookView :=
  ⟨w.id, w.name, w.url, w.events, w.disabled⟩

/-- `encryptWebhookSecret` stores a signing key at rest. -/
def encryptWebhookSecret [Box] (draw : Except Go.Error Nat) (key : String) :
    Except Go.Error String := encryptAtRest draw key

/-- `apiWebhookUpdate`. -/
def apiWebhookUpdate [Box] [Go.Url.Authority] (draw : Except Go.Error Nat) (path : String)
    (body : Except String WebhookBody) : Webhooks.Handler ApiError WebhookView := do
  let id ← Act.ofExcept (pathID path)
  let input ← Act.ofExcept (decodeJSON (body.map WebhookBody.decoded))
  let existing ← (Webhooks.getWebhook id).mapError .err
  let url := if input.url = "" then existing.url else input.url
  Act.ofExcept ((Webhooks.validateWebhookURL url).mapError fun e => badRequest ("url: " ++ e.text))
  let sec ← Act.ofExcept ((encryptWebhookSecret draw input.secret).mapError fun e =>
    badRequest ("encrypt webhook secret: " ++ e.text))
  let row ← (Webhooks.updateWebhook {
    id
    name := existing.name
    url
    events := input.events
    secretEnc := sec
    disabled := input.disabled }).mapError badRequestFrom
  pure (toWebhookView row)

/-! ## Kubernetes trust domains -/

/-- `csiAuthMethodInput` is the create and update request body. -/
structure CsiAuthMethodInput where
  name : String := ""
  audience : String := ""
  issuerURL : String := ""
  apiServerURL : String := ""
  caCert : String := ""
  reviewerToken : String := ""
  insecureSkipVerify : Bool := false
  disabled : Bool := false
  deriving Repr, DecidableEq

/-- What the JSON body of such a request mentions. -/
structure CsiAuthMethodBody where
  name : Option String := none
  audience : Option String := none
  issuerURL : Option String := none
  apiServerURL : Option String := none
  caCert : Option String := none
  reviewerToken : Option String := none
  insecureSkipVerify : Option Bool := none
  disabled : Option Bool := none
  deriving Repr, DecidableEq

/-- The struct that a body is decoded into. -/
def CsiAuthMethodBody.decoded (b : CsiAuthMethodBody) : CsiAuthMethodInput where
  name := b.name.getD ""
  audience := b.audience.getD ""
  issuerURL := b.issuerURL.getD ""
  apiServerURL := b.apiServerURL.getD ""
  caCert := b.caCert.getD ""
  reviewerToken := b.reviewerToken.getD ""
  insecureSkipVerify := b.insecureSkipVerify.getD false
  disabled := b.disabled.getD false

/-- `csiAuthMethodView` is the JSON shape of a trust domain, which leaves its token out. -/
structure CsiAuthMethodView where
  id : Nat
  name : String
  audience : String
  issuerURL : String
  apiServerURL : String
  caCert : String
  insecureSkipVerify : Bool
  disabled : Bool
  createdBy : String
  deriving Repr, DecidableEq

/-- `toCsiAuthMethodView`. -/
def toCsiAuthMethodView (m : K8s.K8sAuthMethod) : CsiAuthMethodView :=
  ⟨m.id, m.name, m.audience, m.issuerURL, m.apiServerURL, m.caCert, m.insecureSkipVerify,
    m.disabled, m.createdBy⟩

/-- `encryptReviewerToken` stores a reviewer token at rest. -/
def encryptReviewerToken [Box] (draw : Except Go.Error Nat) (token : String) :
    Except Go.Error String := encryptAtRest draw token

/-- `refreshK8sRegistry` reads the row of a trust domain again, for the verifier that this process
keeps of it. What comes of that is ignored. -/
def refreshK8sRegistry {ε : Type} (name : String) : K8s.Handler ε Unit := do
  let _ ← (K8s.getK8sAuthMethodByName name).attempt

/-- `apiCsiAuthMethodUpdate`. -/
def apiCsiAuthMethodUpdate [Box] (draw : Except Go.Error Nat) (path : String)
    (body : Except String CsiAuthMethodBody) : K8s.Handler ApiError CsiAuthMethodView := do
  let id ← Act.ofExcept (pathID path)
  let input ← Act.ofExcept (decodeJSON (body.map CsiAuthMethodBody.decoded))
  let existing ← (K8s.getK8sAuthMethod id).mapError .err
  let token ← Act.ofExcept ((encryptReviewerToken draw input.reviewerToken).mapError fun e =>
    badRequest ("encrypt reviewer token: " ++ e.text))
  let row ← (K8s.updateK8sAuthMethod {
    id
    name := existing.name
    audience := input.audience
    issuerURL := input.issuerURL
    apiServerURL := input.apiServerURL
    caCert := input.caCert
    reviewerTokenEnc := token
    insecureSkipVerify := input.insecureSkipVerify
    disabled := input.disabled }).mapError badRequestFrom
  refreshK8sRegistry existing.name
  pure (toCsiAuthMethodView row)

/-! ## Secrets -/

/-- `Labels` decodes the stored label map of a secret. -/
def labels (s : Vault.Secret) : Go.Json.StringMap :=
  if Go.trimSpace s.labelsJSON = "" then ∅ else (Go.Json.unmarshal s.labelsJSON).getD ∅

/-- `EncodeLabels` serialises a label map for storage. -/
def encodeLabels (m : Go.Json.StringMap) : String := if m = ∅ then "\x7b\x7d" else Go.Json.marshal m

/-- What the JSON body of an update mentions; the fields of its struct are pointers. -/
structure SecretBody where
  description : Option String := none
  labels : Option Go.Json.StringMap := none
  rotationDays : Option Int := none

/-- `secretByPathID` resolves a path to a secret by its number or by its name. -/
def secretByPathID (ref : String) : Vault.Handler ApiError Vault.Secret := do
  Act.failIf (ref = "") (badRequest "a secret id or name is required")
  let byName := (Vault.get ref).mapError .err
  match pathNumber ref with
  | none => byName
  | some id => do
    let found ← (Vault.getSecret id).attempt
    match found with
    | .ok sec => pure sec
    | .error _ => byName

/-- `apiSecretUpdate`. -/
def apiSecretUpdate (ref : String) (body : Except String SecretBody) (actor : String) :
    Vault.Handler ApiError Vault.Secret := do
  let sec ← secretByPathID ref
  let body ← Act.ofExcept (decodeJSON body)
  let description := body.description.getD sec.description
  let labels := body.labels.getD (labels sec)
  let rotationDays := body.rotationDays.getD sec.rotationDays
  (Vault.updateMeta sec.name description (encodeLabels labels) rotationDays actor).mapError
    badRequestFrom

end Goca.Web
