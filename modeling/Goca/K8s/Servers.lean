import Mathlib.Data.List.AList
import Goca.K8s.Verifier
import Goca.Lib.Embed

/-!
# Servers and what they keep of the trust domains

Each server process has its configuration file and a registry of verifiers; all of them share the
table of the trust domains. What a process does to its registry is one step, since the registry
holds a lock; what the network answers, and how many bindings name a trust domain, is chosen by the
environment. A restart is a new process.
-/

set_option autoImplicit false

namespace Goca.K8s

open Goca.Store (Fault)
open Interleave (Act Sem Sig)

variable [Platform]

/-! ## The registry -/

/-- `Registry` is a cache of named verifiers, with what each of them was built from. -/
structure Registry where
  verifiers : AList fun _ : String => Verifier
  fingerprints : AList fun _ : String => String

/-- `NewRegistry`. -/
def Registry.new : Registry := ⟨∅, ∅⟩

/-- `SetWithFingerprint` registers a verifier along with the fingerprint of its configuration. -/
def Registry.setWithFingerprint (r : Registry) (name : String) (v : Verifier)
    (fingerprint : String) : Registry :=
  ⟨r.verifiers.insert name v, r.fingerprints.insert name fingerprint⟩

/-- `GetWithFingerprint` returns the verifier of a name and the fingerprint it was registered
with. -/
def Registry.getWithFingerprint (r : Registry) (name : String) : Option (Verifier × String) :=
  (r.verifiers.lookup name).map fun v => (v, (r.fingerprints.lookup name).getD "")

/-- `Remove` drops the verifier of a name. -/
def Registry.remove (r : Registry) (name : String) : Registry :=
  ⟨r.verifiers.erase name, r.fingerprints.erase name⟩

/-- `Len`. -/
def Registry.len (r : Registry) : Nat := r.verifiers.entries.length

namespace Registry

variable (r : Registry) (name name' : String) (v : Verifier) (fp : String)

@[simp] theorem getWithFingerprint_new : new.getWithFingerprint name = none := rfl

@[simp] theorem getWithFingerprint_set :
    (r.setWithFingerprint name v fp).getWithFingerprint name' =
      if name' = name then some (v, fp) else r.getWithFingerprint name' := by
  unfold getWithFingerprint setWithFingerprint
  by_cases h : name' = name
  · subst h
    simp
  · simp [AList.lookup_insert_ne h, h]

@[simp] theorem getWithFingerprint_remove :
    (r.remove name).getWithFingerprint name' =
      if name' = name then none else r.getWithFingerprint name' := by
  unfold getWithFingerprint remove
  by_cases h : name' = name
  · subst h
    simp
  · simp [AList.lookup_erase_ne h, h]

theorem len_set_ne_zero : (r.setWithFingerprint name v fp).len ≠ 0 := by
  simp [len, setWithFingerprint, AList.entries_insert]

end Registry

/-! ## Statements -/

/-- `Server`: a process, as far as the trust domains go. -/
structure Server where
  cfg : CSIConfig
  k8s : Registry

/-- The table that the processes share, and the processes in the order of their start. -/
structure Cluster where
  methods : World
  servers : List Server

/-- `k8sTokenClaims` are the claims of a bound service account token. -/
structure TokenClaims where
  sub : String
  namespace_ : String
  podName : String
  podUID : String
  serviceAccount : String
  deriving Repr, DecidableEq

/-- `tokenReviewResponse`: the status, with the extra keys of the pod. -/
structure TokenReview where
  authenticated : Bool
  error : String
  username : String
  podName : List String
  podUID : List String
  deriving Repr, DecidableEq

/-- A step of a process that is not a statement over the trust domains. -/
inductive LocalStmt
  /-- A new process begins to serve. -/
  | serve (s : Server)
  | getWithFingerprint (p : Nat) (name : String)
  | setWithFingerprint (p : Nat) (name : String) (v : Verifier) (fingerprint : String)
  | remove (p : Nat) (name : String)
  /-- `SELECT COUNT(*)` over the bindings of the secrets. -/
  | countBindings (name : String)
  /-- `oidc.NewProvider`, or that it was discovered before. -/
  | newProvider (issuer : String)
  /-- `Verify` under an issuer and a client, and the decoding of the claims. -/
  | verifyIDToken (issuer clientID token : String)
  /-- The request to the TokenReview API. -/
  | tokenReview (cfg : Config) (token : String)

/-- What a step answers. -/
abbrev LocalStmt.Res : LocalStmt → Type
  | serve _ => Nat
  | getWithFingerprint _ _ => Option (Verifier × String)
  | setWithFingerprint _ _ _ _ => Unit
  | remove _ _ => Unit
  | countBindings _ => Except Go.Error Nat
  | newProvider _ => Except Go.Error Unit
  | verifyIDToken _ _ _ => Except Go.Error (Except Go.Error TokenClaims)
  | tokenReview _ _ => Except Go.Error TokenReview

/-- The steps of a process. -/
abbrev localSig : Sig := ⟨LocalStmt, LocalStmt.Res⟩

/-- What a process asks: the table and the rest. -/
abbrev serverSig : Sig := sig.sum localSig

/-- A handler of a process. -/
abbrev ServerHandler (ε α : Type) := Act serverSig ε α

/-- The environment's choices for one step. -/
structure Env where
  fault : Fault := .none
  bindings : Except Go.Error Nat := .ok 0
  provider : Except Go.Error Unit := .ok ()
  claims : Except Go.Error (Except Go.Error TokenClaims)
  review : Except Go.Error TokenReview

/-- A process after a step on its registry. -/
def Cluster.setRegistry (c : Cluster) (p : Nat) (f : Registry → Registry) : Cluster :=
  { c with servers := c.servers.modify p fun s => { s with k8s := f s.k8s } }

/-- One step of a process. A process that has not started does nothing. -/
def localExec : Sem localSig Env Cluster
  | _, c, .serve s => some (c.servers.length, { c with servers := c.servers ++ [s] })
  | _, c, .getWithFingerprint p name =>
    c.servers[p]?.map fun s => (s.k8s.getWithFingerprint name, c)
  | _, c, .setWithFingerprint p name v fp =>
    c.servers[p]?.map fun _ => ((), c.setRegistry p (·.setWithFingerprint name v fp))
  | _, c, .remove p name => c.servers[p]?.map fun _ => ((), c.setRegistry p (·.remove name))
  | e, c, .countBindings _ => some (e.bindings, c)
  | e, c, .newProvider _ => some (e.provider, c)
  | e, c, .verifyIDToken _ _ _ => some (e.claims, c)
  | e, c, .tokenReview _ _ => some (e.review, c)

/-- **One step** of the processes over the table they share. -/
def serverExec : Sem serverSig Env Cluster :=
  Sem.sum Cluster.methods (fun c w => { c with methods := w }) (fun e w s => exec e.fault w s)
    localExec

/-- Ask one step that does not fail. -/
def step {ε : Type} (s : LocalStmt) : ServerHandler ε s.Res :=
  ExceptT.mk (.ask (.inr s) fun x => .pure (.ok x))

/-- `oidc.NewProvider`. -/
def newProvider (issuer : String) : ServerHandler Go.Error Unit :=
  ExceptT.mk (.ask (.inr (.newProvider issuer)) .pure)

/-- `CountSecretBindingsByAuthMethod`. -/
def countSecretBindingsByAuthMethod (name : String) : ServerHandler Go.Error Nat :=
  ExceptT.mk (.ask (.inr (.countBindings name)) .pure)

/-! ## Package k8sauth: verification -/

/-- `parseServiceAccountSubject` splits `system:serviceaccount:<namespace>:<name>`. -/
def parseServiceAccountSubject (sub : String) : Option (String × String) :=
  match Go.split sub ':' with
  | ["system", "serviceaccount", namespace_, name] =>
    if namespace_ = "" ∨ name = "" then none else some (namespace_, name)
  | _ => none

/-- Whom the claims of a token name. -/
def TokenClaims.identity (c : TokenClaims) : Except Go.Error Identity :=
  if c.namespace_ ≠ "" ∧ c.serviceAccount ≠ "" then .ok {
    namespace_ := c.namespace_
    serviceAccount := c.serviceAccount
    podName := c.podName
    podUID := c.podUID }
  else match parseServiceAccountSubject c.sub with
    | some (namespace_, serviceAccount) => .ok { namespace_, serviceAccount }
    | none => .error (.new ("k8sauth: token has neither a kubernetes.io claim nor a recognizable " ++
        "ServiceAccount subject: " ++ Go.quote c.sub))

/-- Whom a review names. -/
def TokenReview.identity (r : TokenReview) : Except Go.Error Identity :=
  if r.authenticated = false then
    .error (.new ("k8sauth: " ++ if r.error = "" then "token rejected" else r.error))
  else match parseServiceAccountSubject r.username with
    | some (namespace_, serviceAccount) => .ok {
        namespace_
        serviceAccount
        podName := r.podName.head?.getD ""
        podUID := r.podUID.head?.getD "" }
    | none => .error (.new ("k8sauth: TokenReview authenticated a non-ServiceAccount identity " ++
        Go.quote r.username))

namespace Verifier

/-- `ready` discovers the issuer where that has not succeeded yet; its error is why it is not. -/
def ready (v : Verifier) : ServerHandler Go.Error Unit :=
  -- no error is kept here, and none is read: without an issuer there is a TokenReview API
  if v.cfg.issuerURL = "" then throw (.new "")
  else (newProvider v.cfg.issuerURL).mapError fun e =>
    .wrap ("discover issuer " ++ v.cfg.issuerURL ++ ": ") e ""

/-- `verifyOIDC`. -/
def verifyOIDC (v : Verifier) (token : String) : ServerHandler Go.Error Identity := do
  let answer ← step (.verifyIDToken v.cfg.issuerURL v.cfg.audience token)
  let claims ← Act.ofExcept (answer.mapError fun e => .wrap "k8sauth: verify token: " e "")
  let claims ← Act.ofExcept (claims.mapError fun e =>
    .wrap "k8sauth: decode token claims: " e "")
  Act.ofExcept claims.identity

/-- `verifyTokenReview`. -/
def verifyTokenReview (v : Verifier) (token : String) : ServerHandler Go.Error Identity := do
  let answer ← step (.tokenReview v.cfg token)
  let review ← Act.ofExcept answer
  Act.ofExcept review.identity

/-- `Verify` validates a token and returns the identity of the caller. -/
def verify (v : Verifier) (token : String) : ServerHandler Go.Error Identity := do
  let token := Go.trimSpace token
  Act.failIf (token = "") (.new "k8sauth: empty token")
  let ready ← v.ready.attempt
  match ready with
  | .ok () => v.verifyOIDC token
  | .error e =>
    if v.cfg.tokenReviewConfigured = true then v.verifyTokenReview token
    else throw (.wrap
      "k8sauth: OIDC issuer unreachable and no TokenReview fallback is configured: " e "")

end Verifier

end Goca.K8s
