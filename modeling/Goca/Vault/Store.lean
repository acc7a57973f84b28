import Mathlib.Data.List.Sort
import Goca.Lib.Embed
import Goca.Store.Ca
import Goca.Store.World
import Goca.Vault.Envelope

/-!
# The vault tables

Secrets, their versions and their bindings, and what each statement over them does. A version is
written in a transaction of its own. What a transaction has written is its own until it commits,
and the row of the secret that it counted up is locked until it ends: a statement that would change
that row is not admitted before.

A transaction that its caller abandons stays open until the server notices that the connection is
gone, and rolls it back.
-/

set_option autoImplicit false

namespace Goca.Vault

open Go (Time)
open Goca.Pqcrypt (Bytes EnvelopeText)
open Sql (Table)

/-! ## Rows -/

/-- The types of secrets. -/
inductive SecretType
  | kv | file | certificate
  deriving Repr, DecidableEq

def SecretType.text : SecretType → String
  | .kv => "kv"
  | .file => "file"
  | .certificate => "certificate"

/-- A secret: its metadata, and the version that was written last. -/
structure Secret where
  id : Nat := 0
  name : String
  type : SecretType
  description : String := ""
  labelsJSON : String := "{}"
  certID : Option Nat := none
  currentVersion : Nat := 0
  rotationDays : Int := 0
  disabled : Bool := false
  deriving Repr, DecidableEq

/-- The SHA-256 of a payload, ideal: what it was taken of. -/
structure Digest where
  content : Bytes
  deriving Repr, DecidableEq

/-- One version of a secret. -/
structure SecretVersion where
  id : Nat := 0
  secretID : Nat
  version : Nat
  payloadEnc : EnvelopeText
  payloadSHA256 : Digest
  sizeBytes : Nat
  contentType : String
  destroyed : Bool := false
  deriving DecidableEq

/-- A Kubernetes namespace and service account that may fetch a secret. -/
structure SecretBinding where
  id : Nat := 0
  secretID : Nat
  k8sNamespace : String
  k8sServiceAccount : String
  k8sAuthMethod : String
  expiresAt : Option Time
  deriving Repr, DecidableEq

/-- An open transaction of `CreateSecretVersion`: the version number it reserved, and the version it
inserted. -/
structure Tx where
  id : Nat
  reserved : Option (Nat × Nat) := none
  inserted : Option SecretVersion := none
  deriving DecidableEq

instance : Sql.Keyed Secret := ⟨Secret.id⟩

instance : Sql.Keyed SecretVersion := ⟨SecretVersion.id⟩

instance : Sql.Keyed SecretBinding := ⟨SecretBinding.id⟩

instance : Sql.Keyed Tx := ⟨Tx.id⟩

/-- The vault tables, and the transactions that are open over them. -/
structure Tables where
  secrets : Table Secret
  versions : Table SecretVersion
  bindings : Table SecretBinding
  txs : Table Tx

/-- The tables of a new database. -/
def Tables.empty : Tables := ⟨.empty, .empty, .empty, .empty⟩

/-! ## Statements -/

/-- A statement over the vault tables. -/
inductive DbStmt
  | insertSecret (s : Secret)
  | selectSecret (id : Nat)
  | selectSecretByName (name : String)
  | listSecrets (type : Option SecretType)
  | updateSecretMeta (id : Nat) (description labelsJSON : String) (rotationDays : Int)
  | setSecretDisabled (id : Nat) (disabled : Bool)
  | deleteSecret (id : Nat)
  | begin
  /-- `UPDATE secrets SET current_version = current_version + 1 ... RETURNING current_version`. -/
  | reserveVersion (tx secretID : Nat)
  | insertVersion (tx : Nat) (v : SecretVersion)
  | commit (tx : Nat)
  | rollback (tx : Nat)
  | selectVersion (secretID : Nat) (version : Int)
  | selectLatestVersion (secretID : Nat)
  | listVersions (secretID : Nat)
  | destroyVersion (id : Nat)
  | insertBinding (b : SecretBinding)
  | selectBinding (id : Nat)
  | listBindings (secretID : Nat)
  | deleteBinding (id : Nat)

/-- What a statement answers when it does not fail. -/
abbrev DbStmt.Res : DbStmt → Type
  | insertSecret _ => Nat
  | selectSecret _ => Option Secret
  | selectSecretByName _ => Option Secret
  | listSecrets _ => List Secret
  | updateSecretMeta _ _ _ _ => Nat
  | setSecretDisabled _ _ => Nat
  | deleteSecret _ => Nat
  | begin => Nat
  | reserveVersion _ _ => Option Nat
  | insertVersion _ _ => Unit
  | commit _ => Unit
  | rollback _ => Unit
  | selectVersion _ _ => Option SecretVersion
  | selectLatestVersion _ => Option SecretVersion
  | listVersions _ => List SecretVersion
  | destroyVersion _ => Nat
  | insertBinding _ => Nat
  | selectBinding _ => Option SecretBinding
  | listBindings _ => List SecretBinding
  | deleteBinding _ => Nat

/-- What the vault asks beside the statements of package ca. -/
inductive Stmt
  | db (s : DbStmt)
  /-- The randomness of an encapsulation, which cannot fail. -/
  | encapsulate
  /-- A read of `crypto/rand`. -/
  | random

abbrev Stmt.Ans : Stmt → Type
  | db s => Except Go.Error s.Res
  | encapsulate => Nat
  | random => Except Go.Error Nat

/-- The statements of the vault and of package ca. -/
abbrev sig : Interleave.Sig := Interleave.Sig.sum Store.sig ⟨Stmt, Stmt.Ans⟩

/-- A handler of the vault. -/
abbrev Handler (ε α : Type) := Interleave.Act sig ε α

/-- The database that the replicas share. -/
structure World where
  base : Store.World
  vault : Tables

/-! ## Execution -/

/-- Whether an open transaction other than `tx` has the row of a secret locked. -/
def Tables.locked (t : Tables) (tx id : Nat) : Bool :=
  t.txs.rows.any fun x => x.id != tx && x.reserved.any (·.1 == id)

/-- The statements that wait for the end of another transaction: those that change a row it locked,
or insert a key it inserted. Keys start at one, so no transaction is numbered zero. -/
def Tables.waits (t : Tables) : DbStmt → Bool
  | .reserveVersion tx secretID => t.locked tx secretID
  | .insertVersion tx v => t.txs.rows.any fun x => x.id != tx &&
      x.inserted.any fun r => r.secretID == v.secretID && r.version == v.version
  | .updateSecretMeta id _ _ _ | .setSecretDisabled id _ | .deleteSecret id => t.locked 0 id
  | _ => false

/-- The rows of one version number of a secret. -/
def SecretVersion.is (secretID : Nat) (version : Int) (v : SecretVersion) : Bool :=
  v.secretID == secretID && (v.version : Int) == version

/-- The newest version of a secret that is not destroyed. -/
def Tables.latest (t : Tables) (secretID : Nat) : Option SecretVersion :=
  ((t.versions.rows.filter fun v => v.secretID == secretID && !v.destroyed).insertionSort
    fun a b => b.version ≤ a.version).head?

/-- The violated constraint of an inserted secret. -/
def Tables.secretConflict (t : Tables) (certs : Table Store.Certificate) (s : Secret) :
    Option String :=
  if t.secrets.rows.any (·.name == s.name) then some "UNIQUE constraint failed: secrets.name"
  else if s.certID.any fun c => (certs.get? c).isNone then some "FOREIGN KEY constraint failed"
  else none

/-- The violated constraint of an inserted version. -/
def Tables.versionConflict (t : Tables) (v : SecretVersion) : Option String :=
  if t.versions.rows.any (SecretVersion.is v.secretID v.version) then
    some "UNIQUE constraint failed: secret_versions.secret_id, secret_versions.version"
  else if (t.secrets.get? v.secretID).isNone then some "FOREIGN KEY constraint failed"
  else none

/-- What a commit makes visible. -/
def Tables.commitTx (t : Tables) (x : Tx) : Tables where
  secrets := match x.reserved with
    | none => t.secrets
    | some (id, next) =>
      t.secrets.update (·.id == id) (fun s => { s with currentVersion := next }) fun _ => rfl
  versions := match x.inserted with
    | none => t.versions
    | some v => t.versions.insert (fun id => { v with id, destroyed := false }) fun _ => rfl
  bindings := t.bindings
  txs := t.txs.delete (·.id == x.id)

/-- A transaction that has ended, for whoever still refers to it. -/
def errTxDone : Go.Error :=
  .driver "sql: transaction has already been committed or rolled back"

/-- What a statement of an open transaction answers and leaves. -/
def Tables.within {α : Type} (t : Tables) (tx : Nat) (f : Tx → Except Go.Error α × Tables) :
    Except Go.Error α × Tables :=
  match t.txs.get? tx with
  | none => (.error errTxDone, t)
  | some x => f x

/-- What `DestroySecretVersion` leaves of a version. -/
def SecretVersion.scrub (v : SecretVersion) : SecretVersion :=
  { v with destroyed := true, payloadEnc := .plain }

/-- Rewrite one row of a table. -/
def Tables.updateTx (t : Tables) (id : Nat) (f : Tx → Tx) (hf : ∀ x, (f x).id = x.id) : Tables :=
  { t with txs := t.txs.update (·.id == id) f hf }

def Tables.updateSecrets (t : Tables) (id : Nat) (f : Secret → Secret)
    (hf : ∀ s, (f s).id = s.id) : Tables :=
  { t with secrets := t.secrets.update (·.id == id) f hf }

/-- What a statement answers and leaves. `certs` is the table that `secrets.cert_id` refers to. -/
def Tables.exec (certs : Table Store.Certificate) (t : Tables) :
    (s : DbStmt) → Except Go.Error s.Res × Tables
  | .insertSecret s =>
    match t.secretConflict certs s with
    | some text => (.error (.driver text), t)
    | none => (.ok (t.secrets.seq + 1),
        { t with secrets := t.secrets.insert (fun id => { s with id }) fun _ => rfl })
  | .selectSecret id => (.ok (t.secrets.get? id), t)
  | .selectSecretByName name => (.ok (t.secrets.rows.find? (·.name == name)), t)
  | .listSecrets type =>
    (.ok ((t.secrets.rows.filter fun s => type.all (· == s.type)).insertionSort
      fun a b => a.name ≤ b.name), t)
  | .updateSecretMeta id description labelsJSON rotationDays =>
    (.ok (t.secrets.count (·.id == id)),
      t.updateSecrets id (fun s => { s with description, labelsJSON, rotationDays }) fun _ => rfl)
  | .setSecretDisabled id disabled =>
    (.ok (t.secrets.count (·.id == id)),
      t.updateSecrets id (fun s => { s with disabled }) fun _ => rfl)
  | .deleteSecret id =>
    (.ok (t.secrets.count (·.id == id)), { t with
      secrets := t.secrets.delete (·.id == id)
      versions := t.versions.delete (·.secretID == id)
      bindings := t.bindings.delete (·.secretID == id) })
  | .begin =>
    (.ok (t.txs.seq + 1), { t with txs := t.txs.insert (fun id => ⟨id, none, none⟩) fun _ => rfl })
  | .reserveVersion tx secretID => t.within tx fun _ =>
    match t.secrets.get? secretID with
    | none => (.ok none, t)
    | some s => (.ok (some (s.currentVersion + 1)),
      t.updateTx tx (fun x => { x with reserved := some (secretID, s.currentVersion + 1) })
        fun _ => rfl)
  | .insertVersion tx v => t.within tx fun _ =>
    match t.versionConflict v with
    | some text => (.error (.driver text), t)
    | none => (.ok (), t.updateTx tx (fun x => { x with inserted := some v }) fun _ => rfl)
  | .commit tx => t.within tx fun x => (.ok (), t.commitTx x)
  | .rollback tx => t.within tx fun _ => (.ok (), { t with txs := t.txs.delete (·.id == tx) })
  | .selectVersion secretID version =>
    (.ok (t.versions.rows.find? (SecretVersion.is secretID version)), t)
  | .selectLatestVersion secretID => (.ok (t.latest secretID), t)
  | .listVersions secretID =>
    (.ok ((t.versions.rows.filter (·.secretID == secretID)).insertionSort
      fun a b => b.version ≤ a.version), t)
  | .destroyVersion id =>
    (.ok (t.versions.count (·.id == id)), { t with
      versions := t.versions.update (·.id == id) SecretVersion.scrub fun _ => rfl })
  | .insertBinding b =>
    if (t.secrets.get? b.secretID).isNone then
      (.error (.driver "FOREIGN KEY constraint failed"), t)
    else (.ok (t.bindings.seq + 1),
      { t with bindings := t.bindings.insert (fun id => { b with id }) fun _ => rfl })
  | .selectBinding id => (.ok (t.bindings.get? id), t)
  | .listBindings secretID => (.ok (t.bindings.rows.filter (·.secretID == secretID)), t)
  | .deleteBinding id =>
    (.ok (t.bindings.count (·.id == id)), { t with bindings := t.bindings.delete (·.id == id) })

/-- One statement of the vault. -/
def vaultExec : Interleave.Sem ⟨Stmt, Stmt.Ans⟩ Store.Env World := fun e w s =>
  match s with
  | .db s =>
    if w.vault.waits s then none
    else
      let r := e.fault.apply w.vault (w.vault.exec w.base.ca.certificates s)
      some (r.1, { w with vault := r.2 })
  | .encapsulate => some (e.pick, w)
  | .random => some (e.fault.answer (.ok e.pick), w)

/-- **One statement** of the vault or of package ca. -/
def exec [Go.Runtime] : Interleave.Sem sig Store.Env World :=
  Interleave.Sem.sum World.base (fun w b => { w with base := b }) Store.exec vaultExec

/-! ## Package store -/

variable {ε : Type}

/-- Ask one statement over the vault tables. -/
def db (s : DbStmt) : Handler Go.Error s.Res := ExceptT.mk (.ask (.inr (.db s)) .pure)

/-- `time.Now()`. -/
def now : Handler ε Time := (Store.now : Store.Handler ε Time).embed

/-- `GetSecret` fetches one secret by id. -/
def getSecret (id : Nat) : Handler Go.Error Secret := (db (.selectSecret id)).mapResult Store.row

/-- `GetSecretByName` fetches one secret by its unique path-like name. -/
def getSecretByName (name : String) : Handler Go.Error Secret :=
  (db (.selectSecretByName name)).mapResult Store.row

/-- `CreateSecret` stores a new secret's metadata. -/
def createSecret (s : Secret) : Handler Go.Error Secret := do
  let id ← db (.insertSecret { s with labelsJSON := Store.nz s.labelsJSON "{}" })
  getSecret id

/-- `UpdateSecretMeta` updates a secret's description, labels and rotation policy. -/
def updateSecretMeta (id : Nat) (description labelsJSON : String) (rotationDays : Int) :
    Handler Go.Error Unit :=
  (db (.updateSecretMeta id description (Store.nz labelsJSON "{}") rotationDays)).mapResult
    Store.affected

/-- `SetSecretDisabled` enables or disables a secret. -/
def setSecretDisabled (id : Nat) (disabled : Bool) : Handler Go.Error Unit :=
  (db (.setSecretDisabled id disabled)).mapResult Store.affected

/-- `DeleteSecret` removes a secret, its versions and its bindings permanently. -/
def deleteSecret (id : Nat) : Handler Go.Error Unit :=
  (db (.deleteSecret id)).mapResult Store.affected

/-- `GetSecretVersion` fetches one specific version of a secret. -/
def getSecretVersion (secretID : Nat) (version : Int) : Handler Go.Error SecretVersion :=
  (db (.selectVersion secretID version)).mapResult Store.row

/-- `GetLatestSecretVersion` fetches the newest, non-destroyed version of a secret. -/
def getLatestSecretVersion (secretID : Nat) : Handler Go.Error SecretVersion :=
  (db (.selectLatestVersion secretID)).mapResult Store.row

/-- `DestroySecretVersion` permanently scrubs one version's ciphertext. -/
def destroySecretVersion (id : Nat) : Handler Go.Error Unit :=
  (db (.destroyVersion id)).mapResult Store.affected

/-- What a `SealFunc` produces: the envelope and the columns that describe it. -/
structure SealedVersion where
  payloadEnc : EnvelopeText
  payloadSHA256 : Digest
  sizeBytes : Nat

/-- The statements of `CreateSecretVersion` up to its commit: reserve the next version number, seal
for that exact number, insert. -/
def writeVersion (tx secretID : Nat) (contentType : String)
    (sealFor : Nat → Nat → Handler Go.Error SealedVersion) : Handler Go.Error Nat := do
  let next ← (db (.reserveVersion tx secretID)).mapResult Store.row
  let sealed ← sealFor secretID next
  db (.insertVersion tx {
    secretID
    version := next
    payloadEnc := sealed.payloadEnc
    payloadSHA256 := sealed.payloadSHA256
    sizeBytes := sealed.sizeBytes
    contentType })
  pure next

/-- `CreateSecretVersion` writes one version in a transaction, which every error rolls back. -/
def createSecretVersion (secretID : Nat) (contentType : String)
    (sealFor : Nat → Nat → Handler Go.Error SealedVersion) : Handler Go.Error SecretVersion := do
  let tx ← db .begin
  let written ← (writeVersion tx secretID contentType sealFor).attempt
  match written with
  | .error err => do
    let _ ← (db (.rollback tx)).attempt
    throw err
  | .ok next => do
    db (.commit tx)
    getSecretVersion secretID next

/-- `CreateSecretBinding` authorizes a namespace and service account to fetch a secret. -/
def createSecretBinding (b : SecretBinding) : Handler Go.Error SecretBinding := do
  let id ← db (.insertBinding { b with
    k8sNamespace := Store.nz b.k8sNamespace "*"
    k8sServiceAccount := Store.nz b.k8sServiceAccount "*"
    k8sAuthMethod := Store.nz b.k8sAuthMethod "*" })
  (db (.selectBinding id)).mapResult Store.row

/-- `ListSecretBindings` returns every binding for one secret. -/
def listSecretBindings (secretID : Nat) : Handler Go.Error (List SecretBinding) :=
  db (.listBindings secretID)

/-- `DeleteSecretBinding` revokes one binding. -/
def deleteSecretBinding (id : Nat) : Handler Go.Error Unit :=
  (db (.deleteBinding id)).mapResult Store.affected

end Goca.Vault
