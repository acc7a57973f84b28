import Goca.Ca.Service
import Goca.Go.Path
import Goca.Vault.Store

/-!
# Package vault

The secret manager: named, versioned secrets, sealed for one secret and one version each. A
certificate secret has no versions; its content comes from the certificate that it is linked to,
each time it is asked for.
-/

set_option autoImplicit false

namespace Goca.Vault

open Go (Time)
open Goca.Pki (X509 PrivateKey)
open Goca.Pqcrypt (Bytes EnvelopeText)
open Interleave (Act.failIf)

/-- The service: the vault keypair, and whether there is a CA service beside it. -/
structure Service where
  vault : Pqcrypt.Vault
  hasCA : Bool := true
  deriving Repr, DecidableEq

/-- `aadPrefix`. -/
def aadPrefix : String := "goca/secret/v1"

/-- The additional data that binds a payload to its secret and version. -/
def aad (secretID version : Nat) : String :=
  aadPrefix ++ "|" ++ toString secretID ++ "|" ++ toString version

/-- What a file holds: the bytes of a payload, or the PEM encoding of what package ca keeps. -/
inductive Content
  | bytes (b : Bytes)
  | chain (certs : List X509)
  | key (k : PrivateKey)
  deriving Repr, DecidableEq

/-- One file a secret materializes into. -/
structure File where
  name : String
  data : Content
  deriving Repr, DecidableEq

/-- The version marker of materialized content. -/
inductive Marker
  /-- The digest of the payload, in hex. -/
  | sha256 (d : Digest)
  /-- `cert:` and the serial. -/
  | cert (serialHex : String)
  deriving Repr, DecidableEq

/-- `normalizeName`. -/
def normalizeName (name : String) : String := Go.trimSpace name

/-- `nzGlob`. -/
def nzGlob (v : String) : String := if Go.trimSpace v = "" then "*" else Go.trimSpace v

/-- `audit` records an action; its failure is ignored. -/
def auditWithIP {ε : Type} (actor action target detail ip : String) : Handler ε Unit := do
  let _ ← (Ca.insertAudit actor action target detail ip).embed.attempt
  pure ()

def audit {ε : Type} (actor action target detail : String) : Handler ε Unit :=
  auditWithIP (if actor = "" then "system" else actor) action target detail ""

/-! ## Secret metadata -/

/-- `CreateInput` describes a new secret. -/
structure CreateInput where
  name : String
  type : String := ""
  description : String := ""
  labelsJSON : String := "{}"
  rotationDays : Int := 0
  certID : Option Nat := none
  actor : String := ""

/-- Check what a payload secret may not have. -/
def CreateInput.payloadType (i : CreateInput) (type : SecretType) :
    Handler Go.Error SecretType := do
  Act.failIf (i.certID.isSome = true)
    (.new ("cert_id is only valid for " ++ SecretType.certificate.text ++ " secrets"))
  pure type

/-- The type of a new secret, its certificate resolved. -/
def Service.secretType (s : Service) (i : CreateInput) : Handler Go.Error SecretType :=
  let type := if i.type = "" then SecretType.kv.text else i.type
  if type = SecretType.kv.text then i.payloadType .kv
  else if type = SecretType.file.text then i.payloadType .file
  else if type = SecretType.certificate.text then
    match i.certID with
    | none => throw (.new "a certificate secret requires cert_id")
    | some certID => do
      Act.failIf (s.hasCA = false)
        (.new "certificate secrets are unavailable: no CA service is configured")
      let _ ← (Store.getCertificate certID).embed.mapError fun e =>
        .wrap ("resolve certificate " ++ toString certID ++ ": ") e ""
      pure .certificate
  else throw (.new ("unknown secret type " ++ Go.quote type ++ " (want kv, file or certificate)"))

/-- `Create` registers a new secret's metadata. -/
def Service.create (s : Service) (i : CreateInput) : Handler Go.Error Secret := do
  let name := normalizeName i.name
  Act.failIf (name = "") (.new "a secret name is required")
  let type ← s.secretType i
  let sec ← createSecret {
    name
    type
    description := i.description
    labelsJSON := i.labelsJSON
    certID := i.certID
    rotationDays := i.rotationDays }
  audit i.actor "secret.create" name ("type=" ++ type.text)
  pure sec

/-- `Get` resolves a secret by name. -/
def get (name : String) : Handler Go.Error Secret := getSecretByName (normalizeName name)

/-- `List` returns every secret, optionally narrowed to one type. -/
def list (type : Option SecretType) : Handler Go.Error (List Secret) := db (.listSecrets type)

/-- `UpdateMeta` changes a secret's description, labels and rotation policy. -/
def updateMeta (name description labelsJSON : String) (rotationDays : Int) (actor : String) :
    Handler Go.Error Secret := do
  let sec ← get name
  updateSecretMeta sec.id description labelsJSON rotationDays
  audit actor "secret.update" sec.name ""
  getSecret sec.id

/-- `SetDisabled` enables or disables a secret without destroying any version. -/
def setDisabled (name : String) (disabled : Bool) (actor : String) : Handler Go.Error Unit := do
  let sec ← get name
  setSecretDisabled sec.id disabled
  audit actor (if disabled then "secret.disable" else "secret.enable") sec.name ""

/-- `Delete` removes a secret, every version, and every binding permanently. -/
def delete (name actor : String) : Handler Go.Error Unit := do
  let sec ← get name
  deleteSecret sec.id
  audit actor "secret.delete" sec.name
    ("type=" ++ sec.type.text ++ " versions=" ++ toString sec.currentVersion)

/-! ## Payloads -/

/-- The randomness of `ek.Encapsulate()`. -/
def encapsulate : Handler Go.Error Nat :=
  ExceptT.mk (.ask (.inr .encapsulate) fun x => .pure (.ok x))

/-- A read of `crypto/rand`, its error wrapped. -/
def random (what : String) : Handler Go.Error Nat :=
  Interleave.Act.mapError (fun e => .wrap ("pqcrypt: generate " ++ what ++ ": ") e "")
    (ExceptT.mk (.ask (.inr .random) .pure))

/-- The draws of one `Seal`. -/
def draws : Handler Go.Error Pqcrypt.Draws := do
  let encapsulation ← encapsulate
  let ephemeral ← random "ephemeral X25519 key"
  let salt ← random "salt"
  let dek ← random "data key"
  let wrapNonce ← random "nonce"
  let payloadNonce ← random "nonce"
  pure ⟨encapsulation, ephemeral, salt, dek, wrapNonce, payloadNonce⟩

/-- What is stored of a value that was sealed for one version of a secret. -/
def Service.sealed (s : Service) (d : Pqcrypt.Draws) (value : Bytes) (secretID version : Nat) :
    SealedVersion :=
  ⟨s.vault.sealWith d value (aad secretID version), ⟨value⟩, value.length⟩

/-- The `SealFunc` of `Put`. -/
def Service.sealFor (s : Service) (value : Bytes) (secretID version : Nat) :
    Handler Go.Error SealedVersion := do
  let d ← draws.mapError fun e => .wrap "seal secret: " e ""
  pure (s.sealed d value secretID version)

/-- `Put` seals a value as a new version of an existing kv or file secret. -/
def Service.put (s : Service) (name : String) (value : Bytes) (contentType actor : String) :
    Handler Go.Error SecretVersion := do
  let sec ← get name
  Act.failIf (sec.type = .certificate)
    (.new ("certificate secrets are materialized from their linked certificate, " ++
      "not written directly"))
  Act.failIf (sec.disabled = true) (.new ("secret " ++ Go.quote sec.name ++ " is disabled"))
  let v ← createSecretVersion sec.id contentType (s.sealFor value)
  audit actor "secret.put" sec.name
    ("version=" ++ toString v.version ++ " size=" ++ toString value.length)
  pure v

/-- `resolveOpenable`. -/
def resolveOpenable (name : String) : Handler Go.Error Secret := do
  let sec ← get name
  Act.failIf (sec.type = .certificate)
    (.new (Go.quote sec.name ++ " is a certificate secret; use Materialize"))
  Act.failIf (sec.disabled = true) (.new ("secret " ++ Go.quote sec.name ++ " is disabled"))
  pure sec

/-- `open`: the plaintext of a version. -/
def Service.openVersion (s : Service) (sec : Secret) (v : SecretVersion) : Except Go.Error Bytes :=
  if v.destroyed = true then
    .error (.new ("version " ++ toString v.version ++ " of " ++ Go.quote sec.name ++
      " has been destroyed"))
  else (s.vault.openText v.payloadEnc (aad sec.id v.version)).mapError fun e =>
    .wrap "open secret: " e ""

/-- `GetLatest` opens the newest, non-destroyed version of a kv or file secret. -/
def Service.getLatest (s : Service) (name : String) : Handler Go.Error (Secret × Bytes) := do
  let sec ← resolveOpenable name
  let v ← getLatestSecretVersion sec.id
  let pt ← .ofExcept (s.openVersion sec v)
  pure (sec, pt)

/-- `GetVersion` opens one specific, possibly non-current version. -/
def Service.getVersion (s : Service) (name : String) (version : Int) :
    Handler Go.Error (Secret × Bytes) := do
  let sec ← resolveOpenable name
  let v ← getSecretVersion sec.id version
  let pt ← .ofExcept (s.openVersion sec v)
  pure (sec, pt)

/-- `Versions` lists every version of a secret, newest first. -/
def versions (name : String) : Handler Go.Error (Secret × List SecretVersion) := do
  let sec ← get name
  let vs ← db (.listVersions sec.id)
  pure (sec, vs)

/-- `DestroyVersion` permanently scrubs one version's ciphertext. -/
def destroyVersion (name : String) (version : Int) (actor : String) : Handler Go.Error Unit := do
  let sec ← get name
  let v ← getSecretVersion sec.id version
  destroySecretVersion v.id
  audit actor "secret.version_destroy" sec.name ("version=" ++ toString version)

/-! ## Materialization -/

/-- The name of the file that a version materializes into. -/
def fileName (contentType : String) : String :=
  if Go.trimSpace contentType = "" then "value" else Go.trimSpace contentType

/-- The files and the marker of a certificate secret, from what package ca answers. -/
def certificateFiles (cert : Store.Certificate) (full : List X509) (key : PrivateKey)
    (chain : List X509) : List File × Marker :=
  ([⟨"tls.crt", .chain full⟩, ⟨"tls.key", .key key⟩, ⟨"ca.crt", .chain chain⟩],
    .cert cert.serialHex)

/-- `materializeCertificate`. -/
def Service.materializeCertificate (s : Service) (sec : Secret) :
    Handler Go.Error (List File × Marker) :=
  if s.hasCA = false then
    throw (.new "certificate secrets are unavailable: no CA service is configured")
  else match sec.certID with
    | none => throw (.new ("secret " ++ Go.quote sec.name ++ " has no linked certificate"))
    | some certID => do
      let cert ← (Store.getCertificate certID).embed.mapError fun e =>
        .wrap ("resolve certificate " ++ toString certID ++ ": ") e ""
      let full ← (Ca.certChainPEM cert).embed.mapError fun e => .wrap "build full chain: " e ""
      let key ← .ofExcept ((Ca.certKey cert).mapError fun e => .wrap "decrypt private key: " e "")
      let caRec ← (Store.getCA cert.caID).embed.mapError fun e =>
        .wrap "resolve issuing CA: " e ""
      let chain ← (Ca.caChain caRec).embed.mapError fun e => .wrap "build issuer chain: " e ""
      pure (certificateFiles cert full key chain)

/-- The file and the marker of an opened version. -/
def versionFiles (v : SecretVersion) (pt : Bytes) : List File × Marker :=
  ([⟨fileName v.contentType, .bytes pt⟩], .sha256 v.payloadSHA256)

/-- `Materialize` resolves a secret's current content into files and a version marker. -/
def Service.materialize (s : Service) (name : String) :
    Handler Go.Error (Secret × List File × Marker) := do
  let sec ← get name
  Act.failIf (sec.disabled = true) (.new ("secret " ++ Go.quote sec.name ++ " is disabled"))
  match sec.type with
  | .certificate => do
    let (files, version) ← s.materializeCertificate sec
    pure (sec, files, version)
  | _ => do
    let v ← getLatestSecretVersion sec.id
    let pt ← .ofExcept (s.openVersion sec v)
    let (files, version) := versionFiles v pt
    pure (sec, files, version)

/-! ## Bindings -/

/-- Check that a pattern is one. -/
def checkPattern (what pattern : String) : Except Go.Error Unit :=
  match Go.pathMatch pattern "probe" with
  | .ok _ => .ok ()
  | .error _ => .error (.wrap ("invalid " ++ what ++ " pattern " ++ Go.quote pattern ++ ": ")
      (.driver "syntax error in pattern") "")

/-- `Bind` authorizes a namespace and service account to fetch a secret. -/
def bind (name namespace_ serviceAccount authMethod : String) (expiresAt : Option Time)
    (actor : String) : Handler Go.Error SecretBinding := do
  let sec ← get name
  let ns := nzGlob namespace_
  let sa := nzGlob serviceAccount
  let method := nzGlob authMethod
  .ofExcept (checkPattern "namespace" ns)
  .ofExcept (checkPattern "service account" sa)
  .ofExcept (checkPattern "auth method" method)
  let b ← createSecretBinding {
    secretID := sec.id
    k8sNamespace := ns
    k8sServiceAccount := sa
    k8sAuthMethod := method
    expiresAt }
  audit actor "secret.bind" sec.name
    ("namespace=" ++ ns ++ " sa=" ++ sa ++ " auth_method=" ++ method)
  pure b

/-- `Unbind` revokes one binding. -/
def unbind (bindingID : Nat) (actor : String) : Handler Go.Error Unit := do
  deleteSecretBinding bindingID
  audit actor "secret.unbind" (toString bindingID) ""

/-- `Bindings` lists every binding for one secret. -/
def bindings (name : String) : Handler Go.Error (List SecretBinding) := do
  let sec ← get name
  listSecretBindings sec.id

/-- `Usable` reports whether a binding is still in effect. It reads the clock only where the binding
expires. -/
def SecretBinding.usable {ε : Type} (b : SecretBinding) : Handler ε Bool :=
  match b.expiresAt with
  | none => pure true
  | some expires => do
    let t ← now
    pure (decide (t < expires))

/-- What `path.Match` reports, its error dropped. -/
def pathMatches (pattern name : String) : Bool := (Go.pathMatch pattern name).toOption == some true

/-- The patterns of a binding match an identity. -/
def SecretBinding.admits (b : SecretBinding) (namespace_ serviceAccount authMethod : String) :
    Bool :=
  pathMatches b.k8sNamespace namespace_ && pathMatches b.k8sServiceAccount serviceAccount &&
    (b.k8sAuthMethod == "*" || pathMatches b.k8sAuthMethod authMethod)

/-- `MatchesBinding` reports whether a binding authorizes the given namespace, service account, and
CSI trust domain. -/
def matchesBinding {ε : Type} (b : SecretBinding)
    (namespace_ serviceAccount authMethod : String) : Handler ε Bool := do
  let usable ← b.usable
  pure (usable && b.admits namespace_ serviceAccount authMethod)

end Goca.Vault
