import Mathlib.Algebra.Group.Nat.Defs
import Mathlib.Data.List.Sort
import Goca.Store.Statements

/-!
# The database

What each statement does to the tables. One statement meets one `Env`: the clock, what randomness
gives, which row an unordered `LIMIT 1` picks, and whether the connection fails, before or after
the statement took effect. The only choices the environment does not have are a clock at or before
Go's zero time, a serial outside the range of `NewSerial`, and a random token it gave out before.
-/

set_option autoImplicit false

namespace Goca.Store

open Go (Time)
open Goca.Pki
open Sql (Table)

/-- The tables of package ca. -/
structure CaTables where
  cas : Table CA
  certificates : Table Certificate
  caRevocations : Table CARevocation

/-- The tables of package acme. -/
structure AcmeTables where
  eabCreds : Table EABCred
  accounts : Table AcmeAccount
  orders : Table AcmeOrder
  authorizations : Table AcmeAuthorization
  challenges : Table AcmeChallenge
  nonces : List AcmeNonce

/-- What the replicas share: the database, and the random tokens given out so far. -/
structure World where
  ca : CaTables
  acme : AcmeTables
  tokens : List String

/-- The tables of a new database. -/
def CaTables.empty : CaTables := ⟨.empty, .empty, .empty⟩

/-- The tables of a new database that holds some credentials. -/
def AcmeTables.empty (eabCreds : Table EABCred) : AcmeTables :=
  ⟨eabCreds, .empty, .empty, .empty, .empty, []⟩

/-- A new database, with the credentials an operator created: the one thing no request makes. -/
def World.empty (eabCreds : Table EABCred) : World := ⟨.empty, .empty eabCreds, []⟩

/-- How a statement can fail: not at all, before it took effect, or after. -/
inductive Fault
  | none
  | lost (text : String)
  | late (text : String)
  deriving Repr, DecidableEq

/-- Whether a statement that meets this fault takes effect. -/
def Fault.commits : Fault → Bool
  | .lost _ => false
  | _ => true

/-- The environment's choices for one statement. -/
structure Env where
  now : Time
  pick : Nat := 0
  token : String := ""
  fault : Fault := .none
  deriving Repr, DecidableEq

/-! ## Texts in SQL -/

/-- `LOWER` and `UPPER`, which know ASCII only. -/
def sqlLower (s : String) : String := .ofList (s.toList.map Char.toLower)

def sqlUpper (s : String) : String := .ofList (s.toList.map Char.toUpper)

/-- `LIKE`: `%` is any text, `_` is any rune, and ASCII letters match in either case. -/
def like : List Char → List Char → Bool
  | [], s => s.isEmpty
  | '%' :: p, s => s.tails.any (like p)
  | '_' :: p, s => match s with
    | [] => false
    | _ :: t => like p t
  | c :: p, s => match s with
    | [] => false
    | d :: t => c.toLower == d.toLower && like p t

/-- `col LIKE '%' || text || '%'`. -/
def likeAround (text col : String) : Bool := like ('%' :: text.toList ++ ['%']) col.toList

/-- The row an unordered `LIMIT 1` returns. -/
def pickRow {R : Type} (pick : Nat) (rows : List R) : Option R := rows[pick % rows.length]?

/-! ## Certificate searches -/

section Search

variable [Go.Runtime]

/-- The free-text condition of a search. -/
def CertFilter.queryMatches (f : CertFilter) (c : Certificate) : Bool :=
  let q := Go.trimSpace f.query
  let text := Go.toLower q
  let bare := Go.toUpper (Go.replaceRune q ':' [])
  q == "" || likeAround text (sqlLower c.commonName) || likeAround text (sqlLower c.subject) ||
    likeAround text (sqlLower (encodeSANs c.sans)) || likeAround text (sqlLower c.requestedBy) ||
    likeAround bare (sqlUpper c.serialHex) || likeAround bare (sqlUpper c.fingerprint.text)

/-- The status condition of a search. -/
def CertFilter.statusMatches (f : CertFilter) (now : Time) (c : Certificate) : Bool :=
  if f.status = "active" then c.status == .active && now < c.notAfter
  else if f.status = "expired" then c.status != .revoked && c.notAfter ≤ now
  else if f.status = "revoked" then c.status == .revoked
  else true

/-- The `WHERE` clause of `SearchCertificates`. -/
def CertFilter.selects (f : CertFilter) (now : Time) (c : Certificate) : Bool :=
  f.queryMatches c && (f.caID == 0 || c.caID == f.caID) &&
    (f.profile == "" || c.profile == f.profile) &&
    (f.requestedBy == "" || c.requestedBy == f.requestedBy) && f.statusMatches now c &&
    (decide (f.expiringIn ≤ 0) || (c.status == .active && now < c.notAfter &&
      c.notAfter ≤ now.addDays f.expiringIn))

end Search

/-- Whether one row sorts before another in the column the filter names. -/
def CertFilter.before (f : CertFilter) (a b : Certificate) : Bool :=
  if f.sortBy ∈ ["not_after", "expiry"] then decide (a.notAfter < b.notAfter)
  else if f.sortBy ∈ ["common_name", "cn"] then decide (a.commonName < b.commonName)
  else if f.sortBy = "serial" then decide (a.serialHex < b.serialHex)
  else decide (a.createdAt < b.createdAt)

/-- The `ORDER BY` clause: the column, then the key, both in one direction. -/
def CertFilter.ordered (f : CertFilter) (a b : Certificate) : Prop :=
  let (x, y) := if f.sortDesc then (b, a) else (a, b)
  f.before x y = true ∨ (f.before y x = false ∧ x.id ≤ y.id)

instance (f : CertFilter) : DecidableRel f.ordered := fun _ _ => by
  unfold CertFilter.ordered; infer_instance

/-- The page a search returns: fifty rows where no limit is given. -/
def CertFilter.page [Go.Runtime] (f : CertFilter) (now : Time) (rows : List Certificate) :
    List Certificate :=
  let limit := if f.limit ≤ 0 then 50 else f.limit
  (((rows.filter (f.selects now)).insertionSort f.ordered).drop f.offset.toNat).take limit.toNat

/-! ## The CA tables -/

/-- The violated `UNIQUE` constraint of an inserted CA. -/
def CaTables.caConflict (t : CaTables) (c : CA) : Option String :=
  if t.cas.rows.any (·.name == c.name) then some "UNIQUE constraint failed: cas.name"
  else if t.cas.rows.any (·.slug == c.slug) then some "UNIQUE constraint failed: cas.slug"
  else if c.parentID.any (fun p => (t.cas.get? p).isNone) then
    some "FOREIGN KEY constraint failed"
  else none

/-- The violated constraint of an inserted certificate. -/
def CaTables.certConflict (t : CaTables) (c : Certificate) : Option String :=
  if t.certificates.rows.any (fun r => r.caID == c.caID && r.serialHex == c.serialHex) then
    some "UNIQUE constraint failed: certificates.ca_id, certificates.serial_hex"
  else if (t.cas.get? c.caID).isNone then some "FOREIGN KEY constraint failed"
  else none

/-- What `CompleteCA` writes into the row of a pending CA. -/
def CA.completed (c : CA) (from_ : CA) : CA :=
  { c with
    certPEM := from_.certPEM
    serialHex := from_.serialHex
    subject := from_.subject
    notBefore := from_.notBefore
    notAfter := from_.notAfter
    fingerprint := from_.fingerprint
    status := from_.status
    isRoot := from_.isRoot
    parentID := from_.parentID
    pathLen := from_.pathLen
    subjectKeyID := from_.subjectKeyID
    authorityKeyID := from_.authorityKeyID
    isExternal := from_.isExternal }

/-- The row an `INSERT INTO certificates` makes: the revocation columns have their defaults. -/
def Certificate.stored (c : Certificate) (id : Nat) : Certificate :=
  { c with id, revokedAt := none, revokeCode := 0 }

/-- The `WHERE` clause of `RevokeCertificate`. -/
def Certificate.unrevoked (id : Nat) (c : Certificate) : Bool := c.id == id && c.status != .revoked

/-- What a revocation writes into a certificate's row. -/
def Certificate.revoke (c : Certificate) (now : Time) (reason : Int) : Certificate :=
  { c with status := .revoked, revokedAt := some now, revokeCode := reason }

/-- What the update of `UnrevokeCertificate` writes into a certificate's row. -/
def Certificate.unrevoke (c : Certificate) : Certificate :=
  { c with status := .active, revokedAt := none, revokeCode := 0 }

/-- Replace one table of a database. -/
def CaTables.updateCas (t : CaTables) (p : CA → Bool) (f : CA → CA) (hf : ∀ c, (f c).id = c.id) :
    CaTables := { t with cas := t.cas.update p f hf }

def CaTables.updateCertificates (t : CaTables) (p : Certificate → Bool)
    (f : Certificate → Certificate) (hf : ∀ c, (f c).id = c.id) : CaTables :=
  { t with certificates := t.certificates.update p f hf }

/-- The upsert of `RecordCARevocation`. -/
def CaTables.recordCARevocation (t : CaTables) (issuer : Nat) (serial : String) (now : Time)
    (reason : Int) : CaTables :=
  let same (r : CARevocation) := r.caID == issuer && r.serialHex == serial
  { t with
        caRevocations :=
      if t.caRevocations.rows.any same then
        t.caRevocations.update same (fun r => { r with revokedAt := now, reason }) fun _ => rfl
      else t.caRevocations.insert (fun id => ⟨id, issuer, serial, now, reason⟩) fun _ => rfl }

section Exec

variable [Go.Runtime]

/-- The answer of a statement over the CA tables, and the tables after it. -/
def CaTables.exec (e : Env) (t : CaTables) : (s : CaStmt) → Except Go.Error s.Res × CaTables
  | .insertCA c =>
    match t.caConflict c with
    | some text => (.error (.driver text), t)
    | none => (.ok (t.cas.seq + 1),
        { t with cas := t.cas.insert (fun id => { c with id }) fun _ => rfl })
  | .selectCA id => (.ok (t.cas.get? id), t)
  | .selectCABySlug slug => (.ok (t.cas.rows.find? (·.slug == slug)), t)
  | .selectCAByRef ref =>
    (.ok (pickRow e.pick
      (t.cas.rows.filter fun c => c.slug == ref || c.name == ref || toString c.id == ref)), t)
  | .selectDefaultCA =>
    let issuing := t.cas.rows.filter CA.issuing
    (.ok (((issuing.find? (·.isDefault)).or issuing.head?)), t)
  | .countIssuingCAs => (.ok (t.cas.count CA.issuing), t)
  | .listCAs => (.ok (t.cas.rows.filter (·.isDefault) ++ t.cas.rows.filter (!·.isDefault)), t)
  | .setDefaultCA id =>
    (.ok (), t.updateCas (fun _ => true) (fun c => { c with isDefault := c.id == id }) fun _ => rfl)
  | .setCAStatus id status =>
    (.ok (), t.updateCas (·.id == id) (fun c => { c with status }) fun _ => rfl)
  | .nextCRLNumber id =>
    (.ok ((t.cas.get? id).map (·.crlNumber + 1)),
      t.updateCas (·.id == id)
        (fun c => { c with crlNumber := c.crlNumber + 1, lastCRLAt := some e.now }) fun _ => rfl)
  | .completeCA id c =>
    if c.parentID.any (fun p => (t.cas.get? p).isNone) then
      (.error (.driver "FOREIGN KEY constraint failed"), t)
    else (.ok (t.cas.count (·.id == id)),
      t.updateCas (·.id == id) (fun r => r.completed c) fun _ => rfl)
  | .selectCABySubjectKeyID ski =>
    (.ok (pickRow e.pick
      (t.cas.rows.filter fun c => c.subjectKeyID == ski && c.subjectKeyID != "")), t)
  | .selectCABySubject subject =>
    (.ok (pickRow e.pick (t.cas.rows.filter (·.subject == subject))), t)
  | .selectCAByFingerprint fp =>
    (.ok (pickRow e.pick (t.cas.rows.filter (·.fingerprint == fp))), t)
  | .childCAs parentID => (.ok (t.cas.rows.filter (·.parentID == some parentID)), t)
  | .insertCertificate c =>
    match t.certConflict c with
    | some text => (.error (.driver text), t)
    | none => (.ok (t.certificates.seq + 1),
        { t with certificates := t.certificates.insert c.stored fun _ => rfl })
  | .selectCertificate id => (.ok (t.certificates.get? id), t)
  | .selectCertificateBySerial serial =>
    (.ok (pickRow e.pick (t.certificates.rows.filter fun c => sqlUpper c.serialHex == serial)), t)
  | .countCertificates f now => (.ok (t.certificates.count (f.selects now)), t)
  | .searchCertificates f now => (.ok (f.page now t.certificates.rows), t)
  | .revokeCertificate id reason =>
    (.ok (t.certificates.count (Certificate.unrevoked id)),
      t.updateCertificates (Certificate.unrevoked id) (·.revoke e.now reason) fun _ => rfl)
  | .selectRevocation id =>
    (.ok ((t.certificates.get? id).map fun c => (c.status, c.revokeCode)), t)
  | .unrevokeCertificate id =>
    (.ok (), t.updateCertificates (·.id == id) Certificate.unrevoke fun _ => rfl)
  | .revokedCertificates caID =>
    (.ok ((t.certificates.rows.filter fun c => c.caID == caID && c.status == .revoked).insertionSort
      fun a b => a.revokedAt.getD Time.zero ≤ b.revokedAt.getD Time.zero), t)
  | .setRenewedFrom id predecessorID =>
    (.ok (), t.updateCertificates (·.id == id)
      (fun c => { c with renewedFrom := some predecessorID }) fun _ => rfl)
  | .recordCARevocation issuer serial reason =>
    (.ok (), t.recordCARevocation issuer serial e.now reason)
  | .caRevocations issuer =>
    (.ok ((t.caRevocations.rows.filter (·.caID == issuer)).insertionSort
      fun a b => a.revokedAt ≤ b.revokedAt), t)

end Exec

/-! ## The ACME tables -/

/-- The `WHERE` clause of `ReserveEABAccountSlot`. -/
def EABCred.free (id : Nat) (c : EABCred) : Bool :=
  c.id == id && (c.maxAccounts == 0 || c.accountCount < c.maxAccounts)

/-- The `WHERE` clause of `ReleaseEABAccountSlot`. -/
def EABCred.reserved (id : Nat) (c : EABCred) : Bool := c.id == id && 0 < c.accountCount

/-- The `WHERE` clause of `SetAcmeOrderError`. -/
def AcmeOrder.unfinished (id : Nat) (o : AcmeOrder) : Bool := o.id == id && o.status != .valid

/-- The `WHERE` clause of `ClaimAcmeOrderForFinalize`. -/
def AcmeOrder.claimable (id : Nat) (o : AcmeOrder) : Bool := o.id == id && o.status == .ready

/-- The `WHERE` clause of `ConsumeAcmeNonce`. -/
def AcmeNonce.live (nonce : String) (now : Time) (n : AcmeNonce) : Bool :=
  n.nonce == nonce && now < n.expiresAt

/-- The latest row of a list: `ORDER BY id DESC LIMIT 1`. -/
def latest {R : Type} (rows : List R) : Option R := rows.getLast?

/-- What `SetAcmeOrderError` writes into an order's row. -/
def AcmeOrder.failed (o : AcmeOrder) (problem : Acme.Problem) : AcmeOrder :=
  { o with status := .invalid, error := some problem }

/-- What `ClaimAcmeOrderForFinalize` writes into an order's row. -/
def AcmeOrder.claimed (o : AcmeOrder) : AcmeOrder := { o with status := .processing }

/-- What `SetAcmeOrderCertificate` writes into an order's row. -/
def AcmeOrder.completed (o : AcmeOrder) (certID : Nat) : AcmeOrder :=
  { o with status := .valid, certificateID := some certID }

/-- Replace one table of a database. -/
def AcmeTables.updateEABCreds (t : AcmeTables) (p : EABCred → Bool) (f : EABCred → EABCred)
    (hf : ∀ c, (f c).id = c.id) : AcmeTables := { t with eabCreds := t.eabCreds.update p f hf }

def AcmeTables.updateAccounts (t : AcmeTables) (id : Nat) (f : AcmeAccount → AcmeAccount)
    (hf : ∀ a, (f a).id = a.id) : AcmeTables :=
  { t with accounts := t.accounts.update (·.id == id) f hf }

def AcmeTables.updateOrders (t : AcmeTables) (p : AcmeOrder → Bool) (f : AcmeOrder → AcmeOrder)
    (hf : ∀ o, (f o).id = o.id) : AcmeTables := { t with orders := t.orders.update p f hf }

/-- The violated constraint of an inserted account. -/
def AcmeTables.accountConflict (t : AcmeTables) (a : AcmeAccount) : Option String :=
  if t.accounts.rows.any (·.jwkThumbprint == a.jwkThumbprint) then
    some "UNIQUE constraint failed: acme_accounts.jwk_thumbprint"
  else if (t.eabCreds.get? a.eabID).isNone then some "FOREIGN KEY constraint failed"
  else none

/-- An insertion that a foreign key refers the row of, or refuses. -/
def referred {α W : Type} (parent : Bool) (t : W) (done : α × W) : Except Go.Error α × W :=
  if parent then (.ok done.1, done.2) else (.error (.driver "FOREIGN KEY constraint failed"), t)

/-- The answer of a statement over the ACME tables, and the tables after it. `certs` is the table
that `acme_orders.certificate_id` refers to. -/
def AcmeTables.exec (e : Env) (certs : Table Certificate) (t : AcmeTables) :
    (s : AcmeStmt) → Except Go.Error s.Res × AcmeTables
  | .selectEABCred id => (.ok (t.eabCreds.get? id), t)
  | .selectEABCredByKeyID keyID => (.ok (t.eabCreds.rows.find? (·.keyID == keyID)), t)
  | .reserveEABAccountSlot id =>
    (.ok (t.eabCreds.count (EABCred.free id)), t.updateEABCreds (EABCred.free id)
      (fun c => { c with accountCount := c.accountCount + 1, lastUsedAt := some e.now })
      fun _ => rfl)
  | .releaseEABAccountSlot id =>
    (.ok (), t.updateEABCreds (EABCred.reserved id)
      (fun c => { c with accountCount := c.accountCount - 1 }) fun _ => rfl)
  | .insertAcmeAccount a =>
    match t.accountConflict a with
    | some text => (.error (.driver text), t)
    | none => (.ok (t.accounts.seq + 1), { t with
        accounts := t.accounts.insert (fun id => { a with id, lastUsedAt := none }) fun _ => rfl })
  | .selectAcmeAccount id => (.ok (t.accounts.get? id), t)
  | .selectAcmeAccountByThumbprint k =>
    (.ok (t.accounts.rows.find? (·.jwkThumbprint == k)), t)
  | .setAcmeAccountStatus id status =>
    (.ok (t.accounts.count (·.id == id)),
      t.updateAccounts id (fun a => { a with status }) fun _ => rfl)
  | .setAcmeAccountContact id contact =>
    (.ok (), t.updateAccounts id (fun a => { a with contact }) fun _ => rfl)
  | .touchAcmeAccountUsed id =>
    (.ok (), t.updateAccounts id (fun a => { a with lastUsedAt := some e.now }) fun _ => rfl)
  | .insertAcmeOrder o =>
    referred (t.accounts.get? o.accountID).isSome t (t.orders.seq + 1, { t with
      orders := t.orders.insert (fun id => { o with id, certificateID := none, error := none })
        fun _ => rfl })
  | .selectAcmeOrder id => (.ok (t.orders.get? id), t)
  | .selectAcmeOrderByCertificate certID =>
    (.ok (latest (t.orders.rows.filter (·.certificateID == some certID))), t)
  | .setAcmeOrderError id problem =>
    (.ok (), t.updateOrders (AcmeOrder.unfinished id) (·.failed problem) fun _ => rfl)
  | .claimAcmeOrderForFinalize id =>
    (.ok (t.orders.count (AcmeOrder.claimable id)),
      t.updateOrders (AcmeOrder.claimable id) AcmeOrder.claimed fun _ => rfl)
  | .setAcmeOrderCertificate id certID =>
    referred ((certs.get? certID).isSome || !t.orders.rows.any (·.id == id)) t
      ((), t.updateOrders (·.id == id) (·.completed certID) fun _ => rfl)
  | .insertAcmeAuthorization a =>
    referred (t.orders.get? a.orderID).isSome t (t.authorizations.seq + 1, { t with
      authorizations := t.authorizations.insert (fun id => { a with id }) fun _ => rfl })
  | .selectAcmeAuthorization id => (.ok (t.authorizations.get? id), t)
  | .listAcmeAuthorizationsByOrder orderID =>
    (.ok (t.authorizations.rows.filter (·.orderID == orderID)), t)
  | .insertAcmeChallenge c =>
    referred (t.authorizations.get? c.authorizationID).isSome t (t.challenges.seq + 1, { t with
      challenges := t.challenges.insert (fun id => { c with id }) fun _ => rfl })
  | .selectAcmeChallenge id => (.ok (t.challenges.get? id), t)
  | .listAcmeChallengesByAuthorization authzID =>
    (.ok (t.challenges.rows.filter (·.authorizationID == authzID)), t)
  | .insertAcmeNonce nonce expires =>
    if t.nonces.any (·.nonce == nonce) then
      (.error (.driver "UNIQUE constraint failed: acme_nonces.nonce"), t)
    else (.ok (), { t with nonces := t.nonces ++ [⟨nonce, expires⟩] })
  | .consumeAcmeNonce nonce now =>
    (.ok (t.nonces.countP (AcmeNonce.live nonce now)),
      { t with nonces := t.nonces.filter fun n => !n.live nonce now })
  | .purgeExpiredAcmeNonces now =>
    (.ok (t.nonces.countP (·.expiresAt ≤ now)),
      { t with nonces := t.nonces.filter fun n => !(n.expiresAt ≤ now) })

/-! ## One statement -/

/-- What the connection makes of a statement: its answer and effect, or an error with the effect
lost or committed. -/
def Fault.apply {α W : Type} (f : Fault) (w : W) (done : Except Go.Error α × W) :
    Except Go.Error α × W :=
  match f with
  | .none => done
  | .lost text => (.error (.driver text), w)
  | .late text => (.error (.driver text), done.2)

/-- The answer of a host call that can fail. -/
def Fault.answer {α : Type} (f : Fault) (r : Except Go.Error α) : Except Go.Error α :=
  match f with
  | .none => r
  | .lost text | .late text => .error (.driver text)

/-- The answer of the host, for the environments that give one. -/
def hostExec (e : Env) (w : World) : (s : HostStmt) → Option (s.Res × World)
  | .now => some (e.now, w)
  | .generateKey kt => some (e.fault.answer (.ok ⟨⟨e.pick, kt.kind⟩⟩), w)
  | .newSerial =>
    if 1 ≤ e.pick ∧ e.pick ≤ 2 ^ 127 then some (e.fault.answer (.ok e.pick), w) else none
  | .randomToken =>
    if e.token ∈ w.tokens then none
    else some (e.fault.answer (.ok e.token), { w with tokens := e.token :: w.tokens })
  | .createCertificate t parent pub priv =>
    some (e.fault.answer (x509CreateCertificate t parent pub priv e.token), w)
  | .createRevocationList issuer key number thisUpdate nextUpdate entries =>
    some (e.fault.answer
      (x509CreateRevocationList issuer key number thisUpdate nextUpdate entries), w)
  | .sink _ _ _ _ _ => some ((), w)
  | .diverge => none

/-- **One statement**: under an environment whose clock is past Go's zero time. -/
def exec [Go.Runtime] : Interleave.Sem sig Env World := fun e w s =>
  if 0 < e.now then
    match s with
    | .ca s =>
      let r := e.fault.apply w.ca (w.ca.exec e s)
      some (r.1, { w with ca := r.2 })
    | .acme s =>
      let r := e.fault.apply w.acme (w.acme.exec e w.ca.certificates s)
      some (r.1, { w with acme := r.2 })
    | .audit _ _ _ _ _ => some (e.fault.answer (.ok ()), w)
    | .host s => hostExec e w s
  else none

end Goca.Store
