import Goca.Auth.Web
import Goca.Vault.Service

/-!
# The fetch endpoints of the secret manager

`apiVaultFetch`, for the Secrets Store CSI driver, and `apiESOFetchSecret`, for the External Secrets
Operator. Both serve a workload that a trust domain has authenticated, and release the content of a
secret to it where one of the bindings of the secret admits it.
-/

set_option autoImplicit false

namespace Goca.K8s

/-- `Identity`: the claims of a verified service account token, and the trust domain that verified
it. -/
structure Identity where
  namespace_ : String
  serviceAccount : String
  podName : String := ""
  podUID : String := ""
  authMethod : String := ""
  deriving Repr, DecidableEq

/-- `String` renders an identity the way Kubernetes itself does. -/
def Identity.text (id : Identity) : String :=
  "system:serviceaccount:" ++ id.namespace_ ++ ":" ++ id.serviceAccount

end Goca.K8s

namespace Goca.Web

open Goca.Auth (ApiError badRequest decodeJSON)
open Goca.K8s (Identity)
open Goca.Vault (Content File Handler Marker SecretBinding Service)
open Interleave (Act)

/-- `notFound`. -/
def notFound (msg : String) : ApiError := .status 404 msg none

/-- `errNotFoundOrNotAuthorized` is returned for a secret that does not exist and for one without a
binding to the identity. -/
def errNotFoundOrNotAuthorized : String := "not found or not authorized"

/-- The loop over the bindings of a secret: it stops at the first one that matches. -/
def authorized {ε : Type} (id : Identity) : List SecretBinding → Handler ε Bool
  | [] => pure false
  | b :: bs => do
    let matched ← Vault.matchesBinding b id.namespace_ id.serviceAccount id.authMethod
    if matched = true then pure true else authorized id bs

/-! ## The CSI driver -/

/-- `vaultFetchResult`. The contents of the files are written in base64. -/
structure VaultFetchResult where
  secretName : String
  version : Option Marker := none
  files : List File := []
  error : String := ""
  deriving Repr, DecidableEq

/-- `vaultFetchResponse`. -/
structure VaultFetchResponse where
  identity : String
  results : List VaultFetchResult
  deriving Repr, DecidableEq

/-- `fetchOneVaultSecret`. An early return is its error. -/
def fetchOneVaultSecret (s : Service) (id : Identity) (ip name : String) :
    Handler VaultFetchResult VaultFetchResult := do
  let sec ← (Vault.get name).mapError fun _ =>
    { secretName := name, error := errNotFoundOrNotAuthorized }
  let bindings ← (Vault.bindings sec.name).mapError fun _ =>
    { secretName := name, error := "internal error resolving bindings" }
  let admitted ← authorized id bindings
  Act.failIf (admitted = false) { secretName := name, error := errNotFoundOrNotAuthorized }
  let (_, files, version) ← (s.materialize sec.name).mapError fun e =>
    { secretName := name, error := e.text }
  Vault.auditWithIP id.text "secret.csi_fetch" sec.name
    ("pod=" ++ id.podName ++ " auth_method=" ++ id.authMethod) ip
  pure { secretName := name, version := some version, files }

/-- The result for one name, whichever return it left by. -/
def fetchResult {ε : Type} (s : Service) (id : Identity) (ip name : String) :
    Handler ε VaultFetchResult :=
  (fetchOneVaultSecret s id ip name).mapResult fun
    | .ok r | .error r => .ok r

/-- The loop over the names of a request. -/
def fetchEach {ε : Type} (s : Service) (id : Identity) (ip : String) :
    List String → Handler ε (List VaultFetchResult)
  | [] => pure []
  | name :: names => do
    let r ← fetchResult s id ip name
    let rs ← fetchEach s id ip names
    pure (r :: rs)

/-- `apiVaultFetch` materializes every requested secret that the identity is bound to. A failure on
one secret does not affect the others. -/
def apiVaultFetch (s : Service) (id : Identity) (ip : String)
    (body : Except String (List String)) : Handler ApiError VaultFetchResponse := do
  let secrets ← Act.ofExcept (decodeJSON body)
  Act.failIf (secrets = []) (badRequest "secrets must list at least one secret name")
  let results ← fetchEach s id ip secrets
  pure ⟨id.text, results⟩

/-! ## The External Secrets Operator -/

/-- What the endpoint answers: every file of a secret, or one of them. -/
inductive EsoSecret
  | all (name : String) (version : Marker) (files : List File)
  | one (name property : String) (version : Marker) (valueBase64 : Content)
    (value : Option Content)
  deriving Repr, DecidableEq

/-- `utf8.Valid(data)`. A PEM encoding is ASCII. -/
def utf8Valid : Content → Bool
  | .bytes b => (ByteArray.mk b.toArray).validateUTF8
  | .chain _ | .key _ => true

/-- How `%v` writes a list of names. -/
def namesText (files : List File) : String := "[" ++ " ".intercalate (files.map File.name) ++ "]"

/-- The one file that a request asks for. -/
def selectFile (key property : String) (files : List File) : Except ApiError File :=
  if property ≠ "" then
    match files.find? (·.name == property) with
    | some f => .ok f
    | none => .error (badRequest ("secret " ++ Go.quote key ++ " has no part named " ++
        Go.quote property ++ "; available: " ++ namesText files))
  else match files with
    | [f] => .ok f
    | _ => .error (badRequest ("secret " ++ Go.quote key ++ " has " ++ toString files.length ++
        " parts; add ?property= to select one, or ?all=true for all of them (e.g. " ++
        namesText files ++ ")"))

/-- `apiESOFetchSecret`. -/
def apiESOFetchSecret (s : Service) (id : Identity) (ip key property : String) (all : Bool) :
    Handler ApiError EsoSecret := do
  Act.failIf (key = "") (badRequest ("query parameter \"key\" is required " ++
    "(ESO: template it from \x7b\x7b .remoteRef.key \x7d\x7d)"))
  let sec ← (Vault.get key).mapError fun _ => notFound errNotFoundOrNotAuthorized
  let bindings ← (Vault.bindings sec.name).mapError fun e =>
    badRequest ("resolve bindings: " ++ e.text)
  let admitted ← authorized id bindings
  Act.failIf (admitted = false) (notFound errNotFoundOrNotAuthorized)
  let (_, files, version) ← (s.materialize sec.name).mapError fun e => badRequest e.text
  if all = true then
    Vault.auditWithIP id.text "secret.eso_fetch" sec.name
      ("property=* (" ++ toString files.length ++ " files) auth_method=" ++ id.authMethod) ip
    pure (.all sec.name version files)
  else
    let file ← Act.ofExcept (selectFile key property files)
    Vault.auditWithIP id.text "secret.eso_fetch" sec.name
      ("property=" ++ file.name ++ " auth_method=" ++ id.authMethod) ip
    pure (.one sec.name file.name version file.data
      (if utf8Valid file.data = true then some file.data else none))

end Goca.Web
