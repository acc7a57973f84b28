import Goca.Acme.Certificate
import Goca.Ca.Import
import Goca.Store.World

/-!
# The server

Every request that a replica serves, as one program of statements each. The replicas share the
database and nothing else, so any number of them serving any number of requests is one pool: a
call is a request together with the replica that serves it.
-/

set_option autoImplicit false

namespace Goca

open Goca.Store (Handler sig World exec)
open Interleave (Prog Pool)

/-- What can be asked of a replica: the operations of package ca, and what package acme serves to
its clients. Its administration (`CreateEAB`, `SetEABDisabled`, `DeleteEAB`, `DeactivateAccount`) is
not among them. -/
inductive Request
  | createCA (i : Ca.CreateCAInput)
  | setDefaultCA (id : Nat) (actor : String)
  | setCAStatus (id : Nat) (status : Store.CAStatus) (actor : String)
  | createSubordinateCSR (i : Ca.SubordinateCSRInput)
  | completeSubordinate (i : Ca.CompleteSubordinateInput)
  | importCA (i : Ca.ImportCAInput)
  | issue (i : Ca.IssueInput)
  | renew (id : Nat) (i : Ca.RenewInput)
  | renewExpiring (withinDays : Int) (i : Ca.RenewInput)
  | hold (id : Nat) (actor : String)
  | release (id : Nat) (actor : String)
  | revoke (id : Nat) (reason : Int) (actor : String)
  | bulkRevoke (i : Ca.BulkRevokeInput)
  /-- `depth` bounds the levels that the descent may take. -/
  | revokeCA (depth id : Nat) (reason : Int) (cascade : Bool) (actor : String)
  | generateCRL (caID : Nat) (actor : String)
  | newNonce
  | purgeNonces
  | newAccount (body : Acme.Body)
  | getAccount (accountID : Nat) (body : Acme.Body)
  | newOrder (body : Acme.Body)
  | getOrder (orderID : Nat) (body : Acme.Body)
  | finalize (orderID : Nat) (body : Acme.Body)
  | getAuthorization (authzID : Nat) (body : Acme.Body)
  | getChallenge (challengeID : Nat) (body : Acme.Body)
  | getCertificatePEM (certID : Nat) (body : Acme.Body)
  | revokeCert (body : Acme.Body)

/-- What a replica answers. -/
inductive Reply
  /-- An error of package ca or of the store. -/
  | failed (e : Go.Error)
  /-- A problem document of package acme. -/
  | refused (p : Acme.Problem)
  | done
  | authority (c : Store.CA)
  | subordinate (c : Store.CA) (csr : Pki.CSR)
  | issued (r : Ca.IssueResult)
  | renewed (r : Ca.RenewResult)
  | rotated (out : List Ca.RenewResult) (errs : List Go.Error)
  | bulkRevoked (r : Ca.BulkRevokeResult)
  | retired (r : Ca.RevokeCAResult)
  | crl (l : Pki.CRL)
  | nonce (n : String)
  | purged (n : Nat)
  | registered (r : Acme.NewAccountResult)
  | account (o : Acme.AccountObject)
  | ordered (o : Store.AcmeOrder) (obj : Acme.OrderObject)
  | order (o : Acme.OrderObject)
  | authorization (o : Acme.AuthorizationObject)
  | challenge (o : Acme.ChallengeObject)
  | chain (certs : List Pki.X509)

/-- Whether a reply reports success. -/
def Reply.succeeded : Reply → Bool
  | .failed _ | .refused _ => false
  | _ => true

/-- A handler whose outcome becomes a reply. -/
def replying {ε α : Type} (err : ε → Reply) (ok : α → Reply) (x : Handler ε α) : Prog sig Reply :=
  x.run.bind fun
    | .ok a => .pure (ok a)
    | .error e => .pure (err e)

/-- A request and the replica that serves it. -/
structure Call where
  replica : Acme.Service
  request : Request

/-- The program of a call. -/
def Call.serve [Go.Runtime] (c : Call) : Prog sig Reply :=
  let ca := c.replica.caSvc
  let acme := c.replica
  match c.request with
  | .createCA i => replying .failed .authority (ca.createCA i)
  | .setDefaultCA id actor => replying .failed (fun _ => .done) (ca.setDefaultCA id actor)
  | .setCAStatus id status actor =>
    replying .failed (fun _ => .done) (ca.setCAStatus id status actor)
  | .createSubordinateCSR i =>
    replying .failed (fun r => .subordinate r.1 r.2) (ca.createSubordinateCSR i)
  | .completeSubordinate i => replying .failed .authority (ca.completeSubordinate i)
  | .importCA i => replying .failed .authority (ca.importCA i)
  | .issue i => replying .failed .issued (ca.issue i)
  | .renew id i => replying .failed .renewed (ca.renew id i)
  | .renewExpiring withinDays i =>
    replying .failed (fun r => .rotated r.1 r.2) (ca.renewExpiring withinDays i)
  | .hold id actor => replying .failed (fun _ => .done) (ca.hold id actor)
  | .release id actor => replying .failed (fun _ => .done) (ca.release id actor)
  | .revoke id reason actor => replying .failed (fun _ => .done) (ca.revoke id reason actor)
  | .bulkRevoke i => replying .failed .bulkRevoked (ca.bulkRevoke i)
  | .revokeCA depth id reason cascade actor =>
    replying .failed .retired (ca.revokeCA reason actor depth id cascade)
  | .generateCRL caID actor => replying .failed .crl (ca.generateCRL caID actor)
  | .newNonce => replying .failed .nonce Acme.newNonce
  | .purgeNonces => replying .failed .purged Acme.purgeNonces
  | .newAccount body => replying .refused .registered (acme.newAccount body)
  | .getAccount accountID body => replying .refused .account (acme.getAccount accountID body)
  | .newOrder body => replying .refused (fun r => .ordered r.1 r.2) (acme.newOrder body)
  | .getOrder orderID body => replying .refused .order (acme.getOrder orderID body)
  | .finalize orderID body => replying .refused .order (acme.finalize orderID body)
  | .getAuthorization authzID body =>
    replying .refused .authorization (acme.getAuthorization authzID body)
  | .getChallenge challengeID body =>
    replying .refused .challenge (acme.getChallenge challengeID body)
  | .getCertificatePEM certID body =>
    replying .refused .chain (acme.getCertificatePEM certID body)
  | .revokeCert body => replying .refused (fun _ => .done) (acme.revokeCert body)

/-- The calls that are in progress over a world, none of which has asked anything yet. -/
def serving [Go.Runtime] (w : World) (calls : List Call) : Pool sig Reply World :=
  .init w (calls.map Call.serve)

/-- The calls after a schedule. -/
def served [Go.Runtime] (w : World) (calls : List Call) (moves : Pool.Schedule Store.Env) :
    Pool sig Reply World := (serving w calls).run exec moves

/-- The calls before move `i` of a schedule. -/
def servedUpto [Go.Runtime] (w : World) (calls : List Call) (moves : Pool.Schedule Store.Env)
    (i : Nat) : Pool sig Reply World := (serving w calls).upto exec moves i

end Goca
