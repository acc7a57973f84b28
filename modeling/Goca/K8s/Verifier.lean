import Goca.Lib.Terminated
import Goca.Web.Fetch
import Goca.Web.Patch

/-!
# Verifiers of service account tokens

What package k8sauth makes of a configuration, and how a trust domain becomes one: from its row, or
from the `csi` block of the configuration file. A verifier cannot be built without an audience and
without a way to verify. The network and the certificates are the platform's.
-/

set_option autoImplicit false

namespace Goca.Secret

/-- A `Box` that also reads what it wrote: the text in base64 behind the prefix. -/
class OpenBox extends Box where
  openText : String → Except Go.Error String

/-- `DecryptString`: a value without the prefix is returned as it is. -/
def decryptString [OpenBox] (value : String) : Except Go.Error String :=
  if value = "" then .ok ""
  else match Go.cutPrefix value boxPrefix with
    | none => .ok value
    | some text => OpenBox.openText text

end Goca.Secret

namespace Goca.K8s

open Goca.Secret (OpenBox decryptString isEncrypted)

/-- What the standard library decides of certificates and digests. -/
class Platform extends OpenBox where
  /-- Whether `AppendCertsFromPEM` finds a certificate. -/
  appendCertsFromPEM : String → Bool
  /-- `sha256.Sum256`. -/
  sum256 : String → List UInt8

/-! ## Package k8sauth -/

/-- `Config` configures a verifier. -/
structure Config where
  issuerURL : String
  audience : String
  insecureSkipVerify : Bool
  apiServerURL : String
  caCertPEM : String
  reviewerToken : String
  deriving Repr, DecidableEq

/-- `tokenReviewConfigured`. -/
def Config.tokenReviewConfigured (c : Config) : Bool := c.apiServerURL != "" && c.reviewerToken != ""

variable [Platform]

/-- `Verifier` validates service account tokens under a configuration that `New` accepted. -/
structure Verifier where
  cfg : Config
  audience : Go.trimSpace cfg.audience ≠ ""
  reachable : cfg.issuerURL ≠ "" ∨ cfg.tokenReviewConfigured = true
  bundle : cfg.tokenReviewConfigured = true → cfg.caCertPEM ≠ "" →
    Platform.appendCertsFromPEM cfg.caCertPEM = true
  deriving DecidableEq

/-- `New` builds a verifier. -/
def Verifier.new (cfg : Config) : Except Go.Error Verifier :=
  if haudience : Go.trimSpace cfg.audience = "" then
    .error (.new "k8sauth: an audience is required")
  else if hreachable : cfg.issuerURL = "" ∧ cfg.tokenReviewConfigured = false then
    .error (.new "k8sauth: configure an issuer URL, a TokenReview API server, or both")
  else if hbundle : cfg.tokenReviewConfigured = true ∧ cfg.caCertPEM ≠ "" ∧
      Platform.appendCertsFromPEM cfg.caCertPEM = false then
    .error (.new "k8sauth: no certificates found in the supplied CA bundle")
  else .ok {
    cfg
    audience := haudience
    reachable := by
      by_cases h : cfg.issuerURL = ""
      · exact .inr (Bool.not_eq_false _ ▸ fun hreview => hreachable ⟨h, hreview⟩)
      · exact .inl h
    bundle := fun hreview hpem => Bool.not_eq_false _ ▸ fun hno => hbundle ⟨hreview, hpem, hno⟩ }

/-! ## The configurations of trust domains -/

/-- `defaultCSIAudience` is used when the audience is left blank. -/
def defaultCSIAudience : String := "goca-csi"

/-- The audience of a trust domain. -/
def audienceOf (audience : String) : String := if audience = "" then defaultCSIAudience else audience

/-- A reviewer token in plain text. -/
def plainToken (pre token : String) : Except Go.Error String :=
  if isEncrypted token = true then (decryptString token).mapError fun e => .wrap pre e ""
  else .ok token

/-- `verifierFromRow` builds a verifier from a stored row. -/
def verifierFromRow (row : K8sAuthMethod) : Except Go.Error Verifier := do
  let reviewerToken ← plainToken
    ("decrypt reviewer token for trust domain " ++ Go.quote row.name ++ ": ") row.reviewerTokenEnc
  if row.issuerURL = "" ∧ row.apiServerURL = "" then
    .error (.new ("trust domain " ++ Go.quote row.name ++
      " has neither issuer_url nor api_server_url set"))
  else if row.issuerURL = "" ∧ reviewerToken = "" then
    .error (.new ("trust domain " ++ Go.quote row.name ++
      " has api_server_url set but no reviewer token"))
  else Verifier.new {
    issuerURL := row.issuerURL
    audience := audienceOf row.audience
    insecureSkipVerify := row.insecureSkipVerify
    apiServerURL := row.apiServerURL
    caCertPEM := row.caCert
    reviewerToken }

/-- `CSIConfig` is the `csi` block of the configuration file. -/
structure CSIConfig where
  enabled : Bool := false
  audience : String := ""
  issuerURL : String := ""
  insecureSkipVerify : Bool := false
  apiServerURL : String := ""
  caCert : String := ""
  reviewerToken : String := ""
  deriving Repr, DecidableEq

/-- `verifierFromLegacyConfig` builds a verifier from the `csi` block, and names the keys that are
missing. -/
def verifierFromLegacyConfig (cfg : CSIConfig) : Except Go.Error Verifier := do
  let reviewerToken ← plainToken "decrypt csi.reviewer_token: " cfg.reviewerToken
  if cfg.issuerURL = "" ∧ cfg.apiServerURL = "" then
    .error (.new ("csi.enabled is true but no way to verify ServiceAccount tokens is configured. " ++
      "Set csi.issuer_url to the cluster's ServiceAccount issuer (EKS/GKE/AKS, or any " ++
      "cluster whose issuer is publicly reachable), or csi.api_server_url plus " ++
      "csi.reviewer_token and csi.ca_cert to use the TokenReview API instead (kind, " ++
      "most on-prem clusters). Find the issuer with: " ++
      "kubectl get --raw /.well-known/openid-configuration. " ++
      "Full walkthrough: docs/kubernetes/csi.md"))
  else if cfg.issuerURL = "" ∧ reviewerToken = "" then
    .error (.new ("csi.api_server_url is set but csi.reviewer_token is empty, so goca cannot call " ++
      "the TokenReview API. The token belongs to a ServiceAccount bound to " ++
      "system:auth-delegator; k8s-demo/csi/rbac.yaml creates one. Get it with: " ++
      "kubectl create token goca-server-token-reviewer -n goca-csi --duration=8760h. " ++
      "Full walkthrough: docs/kubernetes/csi.md"))
  else Verifier.new {
    issuerURL := cfg.issuerURL
    audience := audienceOf cfg.audience
    insecureSkipVerify := cfg.insecureSkipVerify
    apiServerURL := cfg.apiServerURL
    caCertPEM := cfg.caCert
    reviewerToken }

/-- `legacyCSIVerifier` is the verifier of the `csi` block, if it is enabled. -/
def legacyCSIVerifier (cfg : CSIConfig) : Except Go.Error (Option Verifier) :=
  if cfg.enabled = false then .ok none else (verifierFromLegacyConfig cfg).map some

/-! ## Fingerprints -/

/-- `hex.EncodeToString`. -/
def hexEncode (b : List UInt8) : String :=
  .ofList (b.flatMap fun x => [(x.toNat / 16).digitChar, (x.toNat % 16).digitChar])

/-- What a verifier is built from. -/
def K8sAuthMethod.fields (m : K8sAuthMethod) : List String :=
  [m.audience, m.issuerURL, m.apiServerURL, m.caCert, m.reviewerTokenEnc,
    toString m.insecureSkipVerify]

/-- What is written into the digest: each field and a zero byte. -/
def K8sAuthMethod.digested (m : K8sAuthMethod) : String :=
  .ofList (Words.terminated '\x00' (m.fields.map String.toList))

/-- `k8sRowFingerprint` identifies everything a verifier is built from. -/
def k8sRowFingerprint (m : K8sAuthMethod) : String := hexEncode (Platform.sum256 m.digested)

/-- `legacyConfigFingerprint` marks the verifier of the `csi` block, which has no row. -/
def legacyConfigFingerprint : String := "legacy-csi-config"

end Goca.K8s
