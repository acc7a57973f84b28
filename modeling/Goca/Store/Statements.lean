import Goca.Lib.Pool
import Goca.Store.Models

/-!
# The statements of a request

Everything a request does outside its own memory, one constructor for each: the SQL statements of
package store, the audit insert, and what it takes from its host (the clock, randomness, the X.509
library, the event sink). A SQL statement is atomic. Where a store function issues several, it is a
program of several of these, and other requests may come in between.

A SQL statement answers with its result or with an error. `Option` is a query of one row that may
find none (`sql.ErrNoRows`), and an update answers the number of rows affected. A statement that
takes the time of its own call (`time.Now()` in its arguments) reads it from the environment.
-/

set_option autoImplicit false

namespace Goca.Store

open Go (Time)
open Goca.Pki

/-- Statements over `cas`, `certificates` and `ca_revocations`. -/
inductive CaStmt
  | insertCA (c : CA)
  | selectCA (id : Nat)
  | selectCABySlug (slug : String)
  | selectCAByRef (ref : String)
  | selectDefaultCA
  | countIssuingCAs
  | listCAs
  /-- The transaction of `SetDefaultCA`. -/
  | setDefaultCA (id : Nat)
  | setCAStatus (id : Nat) (status : CAStatus)
  | nextCRLNumber (id : Nat)
  | completeCA (id : Nat) (c : CA)
  | selectCABySubjectKeyID (ski : String)
  | selectCABySubject (subject : String)
  | selectCAByFingerprint (fp : Fingerprint)
  | childCAs (parentID : Nat)
  | insertCertificate (c : Certificate)
  | selectCertificate (id : Nat)
  | selectCertificateBySerial (serial : String)
  | countCertificates (f : CertFilter) (now : Time)
  | searchCertificates (f : CertFilter) (now : Time)
  | revokeCertificate (id : Nat) (reason : Int)
  /-- The guard of `UnrevokeCertificate`. -/
  | selectRevocation (id : Nat)
  /-- The update of `UnrevokeCertificate`. -/
  | unrevokeCertificate (id : Nat)
  | revokedCertificates (caID : Nat)
  | setRenewedFrom (id predecessorID : Nat)
  | recordCARevocation (issuerCAID : Nat) (serial : String) (reason : Int)
  | caRevocations (issuerCAID : Nat)

/-- What a statement over the CA tables answers. -/
abbrev CaStmt.Res : CaStmt → Type
  | insertCA _ => Nat
  | selectCA _ | selectCABySlug _ | selectCAByRef _ | selectDefaultCA => Option CA
  | countIssuingCAs => Nat
  | listCAs => List CA
  | setDefaultCA _ => Unit
  | setCAStatus _ _ => Unit
  | nextCRLNumber _ => Option Nat
  | completeCA _ _ => Nat
  | selectCABySubjectKeyID _ | selectCABySubject _ | selectCAByFingerprint _ => Option CA
  | childCAs _ => List CA
  | insertCertificate _ => Nat
  | selectCertificate _ | selectCertificateBySerial _ => Option Certificate
  | countCertificates _ _ => Nat
  | searchCertificates _ _ => List Certificate
  | revokeCertificate _ _ => Nat
  | selectRevocation _ => Option (CertStatus × Int)
  | unrevokeCertificate _ => Unit
  | revokedCertificates _ => List Certificate
  | setRenewedFrom _ _ => Unit
  | recordCARevocation _ _ _ => Unit
  | caRevocations _ => List CARevocation

/-- Statements over the ACME tables. -/
inductive AcmeStmt
  | selectEABCred (id : Nat)
  | selectEABCredByKeyID (keyID : String)
  | reserveEABAccountSlot (id : Nat)
  | releaseEABAccountSlot (id : Nat)
  | insertAcmeAccount (a : AcmeAccount)
  | selectAcmeAccount (id : Nat)
  | selectAcmeAccountByThumbprint (thumbprint : PublicKey)
  | setAcmeAccountStatus (id : Nat) (status : AcmeStatus)
  | setAcmeAccountContact (id : Nat) (contact : List String)
  | touchAcmeAccountUsed (id : Nat)
  | insertAcmeOrder (o : AcmeOrder)
  | selectAcmeOrder (id : Nat)
  | selectAcmeOrderByCertificate (certID : Nat)
  | setAcmeOrderError (id : Nat) (problem : Acme.Problem)
  | claimAcmeOrderForFinalize (id : Nat)
  | setAcmeOrderCertificate (id certID : Nat)
  | insertAcmeAuthorization (a : AcmeAuthorization)
  | selectAcmeAuthorization (id : Nat)
  | listAcmeAuthorizationsByOrder (orderID : Nat)
  | insertAcmeChallenge (c : AcmeChallenge)
  | selectAcmeChallenge (id : Nat)
  | listAcmeChallengesByAuthorization (authzID : Nat)
  | insertAcmeNonce (nonce : String) (expires : Time)
  | consumeAcmeNonce (nonce : String) (now : Time)
  | purgeExpiredAcmeNonces (now : Time)

/-- What a statement over the ACME tables answers. -/
abbrev AcmeStmt.Res : AcmeStmt → Type
  | selectEABCred _ | selectEABCredByKeyID _ => Option EABCred
  | reserveEABAccountSlot _ => Nat
  | releaseEABAccountSlot _ => Unit
  | insertAcmeAccount _ => Nat
  | selectAcmeAccount _ | selectAcmeAccountByThumbprint _ => Option AcmeAccount
  | setAcmeAccountStatus _ _ => Nat
  | setAcmeAccountContact _ _ => Unit
  | touchAcmeAccountUsed _ => Unit
  | insertAcmeOrder _ => Nat
  | selectAcmeOrder _ | selectAcmeOrderByCertificate _ => Option AcmeOrder
  | setAcmeOrderError _ _ => Unit
  | claimAcmeOrderForFinalize _ => Nat
  | setAcmeOrderCertificate _ _ => Unit
  | insertAcmeAuthorization _ => Nat
  | selectAcmeAuthorization _ => Option AcmeAuthorization
  | listAcmeAuthorizationsByOrder _ => List AcmeAuthorization
  | insertAcmeChallenge _ => Nat
  | selectAcmeChallenge _ => Option AcmeChallenge
  | listAcmeChallengesByAuthorization _ => List AcmeChallenge
  | insertAcmeNonce _ _ => Unit
  | consumeAcmeNonce _ _ => Nat
  | purgeExpiredAcmeNonces _ => Nat

/-- What a request takes from its host. -/
inductive HostStmt
  /-- `time.Now()`. -/
  | now
  | generateKey (kt : KeyType)
  | newSerial
  /-- 24 bytes of `crypto/rand`, in base64url. -/
  | randomToken
  | createCertificate (t : Template) (parent : Option X509) (pub : PublicKey) (priv : PrivateKey)
  | createRevocationList (issuer : X509) (key : PrivateKey) (number : Nat)
      (thisUpdate nextUpdate : Time) (entries : List CRLEntry)
  /-- The event sink: an observer that cannot fail. -/
  | sink (actor action target detail ip : String)
  /-- A recursion that has not come to its end: no environment lets it go on. -/
  | diverge

/-- What the host answers. -/
abbrev HostStmt.Res : HostStmt → Type
  | now => Time
  | generateKey _ => Except Go.Error PrivateKey
  | newSerial => Except Go.Error Nat
  | randomToken => Except Go.Error String
  | createCertificate _ _ _ _ => Except Go.Error X509
  | createRevocationList _ _ _ _ _ _ => Except Go.Error CRL
  | sink _ _ _ _ _ => Unit
  | diverge => Empty

/-- One statement of a request. -/
inductive Stmt
  | ca (s : CaStmt)
  | acme (s : AcmeStmt)
  /-- `INSERT INTO audit_log`. -/
  | audit (actor action target detail ip : String)
  | host (s : HostStmt)

/-- What a statement answers. -/
abbrev Stmt.Ans : Stmt → Type
  | ca s => Except Go.Error s.Res
  | acme s => Except Go.Error s.Res
  | audit _ _ _ _ _ => Except Go.Error Unit
  | host s => s.Res

/-- The signature of the program. -/
abbrev sig : Interleave.Sig := ⟨Stmt, Stmt.Ans⟩

/-- A program of statements that returns a value or an error. -/
abbrev Handler (ε α : Type) := Interleave.Act sig ε α

variable {ε : Type}

/-- Ask one statement over the CA tables. -/
def ca (s : CaStmt) : Handler Go.Error s.Res := ExceptT.mk (.ask (.ca s) .pure)

/-- Ask one statement over the ACME tables. -/
def acme (s : AcmeStmt) : Handler Go.Error s.Res := ExceptT.mk (.ask (.acme s) .pure)

/-- Ask the host for something that cannot fail. -/
def host (s : HostStmt) : Handler ε s.Res := ExceptT.mk (.ask (.host s) fun x => .pure (.ok x))

/-- `time.Now()`. -/
def now : Handler ε Time := host .now

/-- The end of the fuel of a recursion that has none in the source. -/
def diverge {α : Type} : Handler ε α := ExceptT.mk (.ask (.host .diverge) Empty.elim)

end Goca.Store
