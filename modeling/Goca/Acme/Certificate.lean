import Goca.Acme.Order

/-!
# Package acme: certificates

Download and revocation. Certificate ids are sequential and no secrets, so a download must be signed
by the account whose order produced the certificate; a revocation is signed by an account under the
same credential, or by the certificate's own key.
-/

set_option autoImplicit false

namespace Goca.Acme

open Goca.Pki (PublicKey X509 fingerprintSHA256 serialHex)
open Goca.Store
open Interleave (Act.failIf)

/-- `GetCertificatePEM` returns the certificate of one of the account's orders with its chain. -/
def Service.getCertificatePEM (s : Service) (certID : Nat) (body : Body) :
    Handler Problem (List X509) := do
  let ar ← authenticate body (s.certURL certID)
  Act.failIf (ar.jws.isPostAsGet = false)
    (malformed "a certificate is fetched with POST-as-GET: the payload must be empty")
  let missing := notFound "no such certificate"
  let order ← (getAcmeOrderByCertificate certID).mapError fun _ => missing
  Act.failIf (order.accountID ≠ ar.account.id) missing
  let rec ← (getCertificate certID).mapError fun _ => missing
  orInternal (Ca.certChainPEM rec)

/-- Who signed a revocation: an account, or whoever holds the embedded key. -/
inductive Revoker
  | account (a : AcmeAccount)
  | key (k : Option PublicKey)

/-- The signer of a revocation, its signature verified. -/
def revoker (j : ParsedJWS) : Handler Problem Revoker :=
  if j.keyID ≠ "" then do
    let a ← resolveAccount j.keyID
    .ofExcept (orMalformed (j.verify a.jwk))
    pure (.account a)
  else do
    .ofExcept (orMalformed (match j.jwk with
      | some k => j.verify k
      | none => .error (.wrap "JWS signature verification failed: "
          (.driver "go-jose/go-jose: unsupported key type/format") "")))
    pure (.key j.jwk)

/-- The certificate that a revocation presents, and its reason. -/
def decodeRevocation (j : ParsedJWS) : Except Problem (X509 × Option Int) := do
  let req ← orMalformed (j.payload.decode {} j.payload.revokeCert)
  match req.certificate with
  | .error e => .error (malformed ("certificate is not valid base64url: " ++ e))
  | .ok (.error e) => .error (malformed ("certificate does not parse: " ++ e))
  | .ok (.ok leaf) => .ok (leaf, req.reason)

/-- A signer without an account must hold the certificate's own key. -/
def checkRevokerKey (r : Revoker) (leaf : X509) : Except Problem Unit :=
  match r with
  | .account _ => .ok ()
  | .key k =>
    if k = some leaf.publicKey then .ok ()
    else .error (unauthorized "the signing key does not match the certificate's own key")

/-- Whom a revocation is recorded under. An account must stand under the credential that the
certificate's order was placed under. -/
def revocationActor (r : Revoker) (certID : Nat) : Handler Problem String :=
  match r with
  | .key _ => pure "acme:cert-key"
  | .account a => do
    let refused := unauthorized "this account is not authorized to revoke this certificate"
    let order ← (getAcmeOrderByCertificate certID).mapError fun _ => refused
    let owner ← (getAcmeAccount order.accountID).mapError fun _ => refused
    Act.failIf (owner.eabID ≠ a.eabID) refused
    let cred ← orInternal (getEABCred a.eabID)
    pure ("acme:" ++ cred.name)

/-- The stored certificate that a revocation presents: the same bytes, and not revoked. -/
def presentedCertificate [Go.Runtime] (leaf : X509) : Handler Problem Certificate := do
  let rec ← (getCertificateBySerial (serialHex leaf.serialNumber)).mapError fun _ =>
    notFound "no matching certificate is known to this server"
  Act.failIf (rec.fingerprint ≠ fingerprintSHA256 leaf) (malformed ("the supplied certificate " ++
    "does not match the one this server issued for that serial"))
  Act.failIf (rec.status = .revoked) (alreadyRevoked "this certificate is already revoked")
  pure rec

/-- `RevokeCert` handles POST /revoke-cert. -/
def Service.revokeCert [Go.Runtime] (s : Service) (body : Body) : Handler Problem Unit := do
  let j ← .ofExcept (orMalformed (parseJWS body))
  .ofExcept (checkURL j s.revokeCertURL)
  checkNonce j
  let signer ← revoker j
  let (leaf, requested) ← .ofExcept (decodeRevocation j)
  .ofExcept (checkRevokerKey signer leaf)
  let rec ← presentedCertificate leaf
  let actor ← revocationActor signer rec.id
  let reason := requested.getD 0
  Act.failIf (reason < 0 ∨ reason = 7 ∨ 10 < reason) (badRevocationReason (toString reason ++
    " is not a valid CRL revocation reason"))
  orInternal (s.caSvc.revoke rec.id reason actor)

end Goca.Acme
