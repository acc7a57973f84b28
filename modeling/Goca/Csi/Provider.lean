import Goca.Go.Base64
import Goca.Go.Clean
import Goca.Go.Json

/-!
# Package csi

The provider side of the secret manager: `Mount` fetches every object that a `SecretProviderClass`
lists from the server, with the token of the pod that asks, and answers with files. A server that
cannot be reached, an object that it has no result for and a file name that leads out of the mount
end the call.
-/

set_option autoImplicit false

namespace Goca.Csi

open Go.Json (StringMap)

/-! ## What goes in and out -/

/-- `objectSpec` is one entry of the `objects` list. -/
structure ObjectSpec where
  secretName : String
  /-- The name of the mounted file of a kv or file secret. -/
  fileName : String := ""
  /-- The names of the mounted files of a certificate secret, by their roles. -/
  items : StringMap := ∅
  deriving DecidableEq

/-- `fetchFile`. -/
structure FetchFile where
  name : String
  dataBase64 : String
  deriving Repr, DecidableEq

/-- `fetchResult`. -/
structure FetchResult where
  secretName : String
  version : String := ""
  files : List FetchFile := []
  error : String := ""
  deriving Repr, DecidableEq

/-- A file of a `MountResponse`. -/
structure File where
  path : String
  mode : Nat
  contents : List UInt8
  deriving Repr, DecidableEq

/-- The version of a mounted object. -/
structure ObjectVersion where
  id : String
  version : String
  deriving Repr, DecidableEq

/-- `MountResponse`. -/
structure MountResponse where
  files : List File := []
  objectVersion : List ObjectVersion := []
  deriving Repr, DecidableEq

/-- The request that `fetch` sends, with the headers `Authorization` and `X-Goca-Auth-Method`. -/
structure HTTPRequest where
  url : String
  authorization : String
  authMethod : Option String
  secrets : List String
  deriving Repr, DecidableEq

/-- What the server answers: its status, its body, and the first 4096 bytes of that. -/
structure HTTPResponse where
  statusCode : Nat
  body : String
  head : String := ""
  deriving Repr, DecidableEq

/-- What the package takes over from others. -/
class Library where
  /-- Why a text is no JSON map of strings. -/
  attributesError : String → Go.Error
  /-- `yaml.Unmarshal` into a list of objects. -/
  parseObjects : String → Except Go.Error (List ObjectSpec)
  /-- `json.Unmarshal` into a map from audiences to tokens. -/
  parseTokens : String → Except Go.Error StringMap
  /-- Whether `http.NewRequest` accepts a URL. -/
  checkURL : String → Except Go.Error Unit
  /-- The decoder of the server's answer: its results. -/
  decodeResults : String → Except Go.Error (List FetchResult)

/-- `Provider`. -/
structure Provider where
  audience : String
  authMethod : String := ""
  defaultGocaAddress : String := ""
  deriving Repr, DecidableEq

/-! ## File names -/

/-- `certFileSemantics` maps the file names of a certificate secret to the roles that an `items` map
renames. -/
def certFileSemantics : List (String × String) :=
  [("tls.crt", "cert"), ("tls.key", "key"), ("ca.crt", "ca")]

/-- The role of a materialized file. -/
def semantic (materializedName : String) : Option String :=
  (certFileSemantics.find? (·.1 == materializedName)).map Prod.snd

/-- The name that an object gives a materialized file. -/
def ObjectSpec.mountName (o : ObjectSpec) (materializedName : String) : String :=
  if o.items ≠ ∅ then
    match semantic materializedName with
    | none => materializedName
    | some role =>
      if Go.Json.value o.items role ≠ "" then Go.Json.value o.items role else materializedName
  else if o.fileName ≠ "" then o.fileName
  else materializedName

/-- `targetFileName` resolves the mounted path of one materialized file. -/
def targetFileName (o : ObjectSpec) (materializedName : String) : Except Go.Error String :=
  let name := o.mountName materializedName
  let clean := Go.clean name
  if clean = "." ∨ clean = ".." ∨ Go.hasPrefix clean "../" = true ∨ Go.isAbs clean = true then
    .error (.new ("mount file name " ++ Go.quote name ++ " is not a safe relative path"))
  else .ok clean

/-! ## Mount -/

section Mount

variable [Library]

/-- `podToken` extracts the bound token for the audience of the provider. -/
def Provider.podToken (p : Provider) (attrs : StringMap) : Except Go.Error String :=
  let raw := Go.Json.value attrs "csi.storage.k8s.io/serviceAccount.tokens"
  if raw = "" then
    .error (.new ("no ServiceAccount token was provided by the driver - " ++
      "is CSIDriver.spec.tokenRequests configured with this provider's audience?"))
  else do
    let tokens ← (Library.parseTokens raw).mapError fun e =>
      .wrap "parse serviceAccount.tokens: " e ""
    if Go.Json.value tokens p.audience = "" then
      .error (.new ("no token was issued for audience " ++ Go.quote p.audience))
    else .ok (Go.Json.value tokens p.audience)

/-- `fetch` calls the server's `POST /api/v1/vault/fetch` with the token of the pod. -/
def Provider.fetch (p : Provider) (send : HTTPRequest → Except Go.Error HTTPResponse)
    (gocaAddress token : String) (secretNames : List String) :
    Except Go.Error (List FetchResult) := do
  let url := Go.trimRight gocaAddress "/" ++ "/api/v1/vault/fetch"
  Library.checkURL url
  let resp ← send {
    url
    authorization := "Bearer " ++ token
    authMethod := if p.authMethod ≠ "" then some p.authMethod else none
    secrets := secretNames }
  if resp.statusCode ≠ 200 then
    .error (.new ("HTTP " ++ toString resp.statusCode ++ ": " ++ Go.trimSpace resp.head))
  else (Library.decodeResults resp.body).mapError fun e => .wrap "decode response: " e ""

/-- `byName`: the results by their secrets. A later one replaces an earlier one. -/
def byName (results : List FetchResult) (secretName : String) : Option FetchResult :=
  results.reverse.find? (·.secretName == secretName)

/-- The text before the error of an object. -/
def secretError (o : ObjectSpec) (pre : String) : String :=
  "csi: secret " ++ Go.quote o.secretName ++ pre ++ ": "

/-- One file of an object. -/
def mountFile (o : ObjectSpec) (f : FetchFile) : Except Go.Error File := do
  let path ← (targetFileName o f.name).mapError fun e => .wrap (secretError o "") e ""
  let contents ← (Go.Base64.stdDecode f.dataBase64).mapError fun e =>
    .wrap (secretError o (" file " ++ Go.quote f.name) ++ "invalid base64 from server: ") e ""
  .ok ⟨path, 0o600, contents⟩

/-- The files of an object. -/
def mountFiles (o : ObjectSpec) : List FetchFile → Except Go.Error (List File)
  | [] => .ok []
  | f :: rest => do
    let file ← mountFile o f
    let files ← mountFiles o rest
    .ok (file :: files)

/-- One object: its files and its version. -/
def mountObject (results : List FetchResult) (o : ObjectSpec) :
    Except Go.Error (List File × ObjectVersion) :=
  match byName results o.secretName with
  | none => .error (.new ("csi: server returned no result for secret " ++ Go.quote o.secretName))
  | some r =>
    if r.error ≠ "" then .error (.new (secretError o "" ++ r.error))
    else if 1 < r.files.length ∧ o.fileName ≠ "" then
      .error (.new ("csi: secret " ++ Go.quote o.secretName ++ " resolved to " ++
        toString r.files.length ++ " files (it is likely a certificate secret); " ++
        "use \"items\" to rename them, not \"fileName\""))
    else do
      let files ← mountFiles o r.files
      .ok (files, ⟨o.secretName, r.version⟩)

/-- The loop of `Mount` over the objects. -/
def mountEach (results : List FetchResult) : List ObjectSpec → Except Go.Error MountResponse
  | [] => .ok {}
  | o :: rest => do
    let (files, version) ← mountObject results o
    let resp ← mountEach results rest
    .ok ⟨files ++ resp.files, version :: resp.objectVersion⟩

/-- The names of the objects, each of which has one. -/
def secretNames (i : Nat) : List ObjectSpec → Except Go.Error (List String)
  | [] => .ok []
  | o :: rest =>
    if Go.trimSpace o.secretName = "" then
      .error (.new ("csi: objects[" ++ toString i ++ "] has no secretName"))
    else (secretNames (i + 1) rest).map (o.secretName :: ·)

/-- The mount attributes of a request. -/
def parseAttributes (attributes : String) : Except Go.Error StringMap :=
  match Go.Json.unmarshal attributes with
  | some attrs => .ok attrs
  | none => .error (.wrap "csi: parse mount attributes: " (Library.attributesError attributes) "")

/-- The objects that a request lists. -/
def requestedObjects (attrs : StringMap) : Except Go.Error (List ObjectSpec) := do
  let objects ← (Library.parseObjects (Go.Json.value attrs "objects")).mapError fun e =>
    .wrap "csi: parse SecretProviderClass objects: " e ""
  if objects = [] then .error (.new "csi: SecretProviderClass has no objects listed")
  else .ok objects

/-- What the server answers for the objects of a request. -/
def Provider.resolve (p : Provider) (send : HTTPRequest → Except Go.Error HTTPResponse)
    (attrs : StringMap) (objects : List ObjectSpec) : Except Go.Error (List FetchResult) := do
  let token ← (p.podToken attrs).mapError fun e =>
    .wrap "csi: " e (" (pod " ++ Go.Json.value attrs "csi.storage.k8s.io/pod.namespace" ++ "/" ++
      Go.Json.value attrs "csi.storage.k8s.io/pod.name" ++ ", ServiceAccount " ++
      Go.Json.value attrs "csi.storage.k8s.io/serviceAccount.name" ++ ")")
  let given := Go.trimSpace (Go.Json.value attrs "gocaAddress")
  let gocaAddress := if given = "" then p.defaultGocaAddress else given
  if gocaAddress = "" then
    .error (.new ("csi: no gocaAddress in the SecretProviderClass parameters " ++
      "and no default configured"))
  else do
    let names ← secretNames 0 objects
    (p.fetch send gocaAddress token names).mapError fun e =>
      .wrap ("csi: fetch secrets from " ++ gocaAddress ++ ": ") e ""

/-- **`Mount`** resolves every object that a request lists into files, or fails. -/
def Provider.mount (p : Provider) (send : HTTPRequest → Except Go.Error HTTPResponse)
    (attributes : String) : Except Go.Error MountResponse := do
  let attrs ← parseAttributes attributes
  let objects ← requestedObjects attrs
  let results ← p.resolve send attrs objects
  mountEach results objects

end Mount

end Goca.Csi
