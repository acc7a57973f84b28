import Goca.Server

/-!
# A small installation

The rows and the replica that the runs of this development start from, wherever a law is shown at
work or shown to fail: a root authority of ten years with its key, a server certificate of one
year under it, and a credential of package acme with the requests of one account.
-/

set_option autoImplicit false

namespace Goca.Samples

open Goca.Store
open Goca.Pki (PrivateKey X509)

/-- The replica every sample call is served by. -/
def replica : Acme.Service := ⟨⟨⟨"https://ca.internal", "ec-p256", 3650, 397, 7⟩, false⟩⟩

/-- The key of the root authority. -/
def rootKey : PrivateKey := ⟨⟨1, .ecP256⟩⟩

/-- The certificate of the root authority. -/
def rootCert : X509 where
  version := 3
  serialNumber := 1
  subject := { commonName := "Root" }
  issuer := { commonName := "Root" }
  notBefore := 0
  notAfter := 315360000
  keyUsage := Pki.caUsages
  extKeyUsage := []
  basicConstraintsValid := true
  isCA := true
  maxPathLen := -1
  maxPathLenZero := false
  sans := {}
  subjectKeyId := [1]
  authorityKeyId := []
  publicKey := rootKey.publicKey
  signedBy := rootKey.publicKey
  digest := "01"

/-- The row of the root authority. -/
def root : CA where
  id := 1
  name := "Root"
  slug := "root"
  subject := "CN=Root"
  serialHex := "01"
  keyType := "ec-p256"
  certPEM := some rootCert
  keyEnc := some rootKey
  isRoot := true
  notAfter := rootCert.notAfter
  status := .active
  fingerprint := some rootCert
  isDefault := true

/-- The row of a server certificate. -/
def leaf : Certificate where
  id := 1
  caID := 1
  serialHex := "02"
  commonName := "host.internal"
  subject := "CN=host.internal"
  sans := ["DNS:host.internal"]
  profile := "server"
  keyType := "ec-p256"
  certPEM := none
  keyEnc := none
  fingerprint := none
  notBefore := 0
  notAfter := 31536000
  requestedBy := "ops"
  note := ""

/-- A row of the authorities keeps the id it is stored under. -/
theorem key_ca (ca : CA) (id : Nat) : Sql.Keyed.key { ca with id } = id := rfl

/-- A row of the certificates keeps the id it is stored under. -/
theorem key_certificate (c : Certificate) (id : Nat) : Sql.Keyed.key { c with id } = id := rfl

/-- A database with one authority and the given certificates under it. -/
def installation (ca : CA) (certs : List Certificate) : World :=
  { World.empty .empty with
    ca := {
      cas := Sql.Table.empty.insert (fun id => { ca with id }) (key_ca ca)
      certificates :=
        certs.foldl (fun t c => t.insert (fun id => { c with id }) (key_certificate c)) .empty
      caRevocations := .empty } }

/-- A schedule of the named threads in turn, at one time of the clock, without a fault. -/
def inTurn (threads : List Nat) : Interleave.Pool.Schedule Env :=
  threads.map fun t => (t, { now := 100, pick := 2 })

/-! ## Package acme -/

/-- A credential for one account. -/
def cred : EABCred where
  id := 1
  keyID := "kid-1"
  hmacKey := 11
  name := "ops"
  caID := none
  profile := "server"
  days := 90
  allowedDomains := ["internal"]
  maxAccounts := 1
  accountCount := 0
  disabled := false
  expiresAt := none
  lastUsedAt := none

/-- The credentials of a new database. -/
def creds : Sql.Table EABCred := Sql.Table.empty.insert (fun id => { cred with id }) fun _ => rfl

/-- The key of the account. -/
def accountKey : Pki.PublicKey := ⟨7, .ecP256⟩

/-- The payload of a request that only fetches. -/
def noPayload : Acme.Payload where
  empty := true
  newAccount := .error ""
  updateAccount := .error ""
  newOrder := .error ""
  finalize := .error ""
  revokeCert := .error ""

/-- A request that the key of the account signs, under its kid or, with none, under the key. -/
def signedRequest (nonce kid url : String) (payload : Acme.Payload) : Acme.Body := .ok {
  signatures := 1
  unprotected := false
  keyID := kid
  jwk := if kid = "" then some accountKey else none
  nonce := nonce
  url := some url
  signer := accountKey
  payload := payload }

/-- The registration of the account under the credential. -/
def registration (nonce : String) : Acme.Body :=
  let url := replica.newAccountURL
  signedRequest nonce "" url { noPayload with
    empty := false
    newAccount := .ok { externalAccountBinding := .jws {
      signatures := 1
      keyID := cred.keyID
      hasJWK := false
      nonce := ""
      url := some url
      macKey := cred.hmacKey
      payload := .ok accountKey } } }

/-- A request of the account with the number `id`. -/
def accountRequest (id : Nat) (nonce url : String) (payload : Acme.Payload) : Acme.Body :=
  signedRequest nonce (replica.accountURL id) url payload

/-- The request to finalize order 1 with a CSR for the given names. -/
def finalization (nonce : String) (names : List String) : Acme.Body :=
  accountRequest 1 nonce (replica.finalizeURL 1) { noPayload with
    empty := false
    finalize := .ok { csr := .ok (.csr {
      subject := {}
      sans := { dns := names }
      publicKey := accountKey }) } }

/-- The row of the account. -/
def account : AcmeAccount where
  id := 1
  eabID := 1
  jwk := accountKey
  jwkThumbprint := accountKey
  contact := []
  status := .valid

/-- The row of an order for one host. -/
def order : AcmeOrder where
  id := 1
  accountID := 1
  status := .ready
  identifiers := [⟨"dns", "host.internal"⟩]
  expiresAt := 86400
  notAfter := none

/-- A database with the authority, the account, its order, and some nonces. -/
def orderInstallation (nonces : List String) : World :=
  { installation root [] with
    acme := { AcmeTables.empty creds with
      accounts := Sql.Table.empty.insert (fun id => { account with id }) fun _ => rfl
      orders := Sql.Table.empty.insert (fun id => { order with id }) fun _ => rfl
      nonces := nonces.map fun n => ⟨n, 600⟩ } }

/-- The moves of a `newNonce` call that draws the given token. -/
def drawing (thread : Nat) (token : String) : Interleave.Pool.Schedule Env :=
  List.replicate 3 (thread, { now := 100, token := token })

end Goca.Samples
