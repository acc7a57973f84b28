import Goca.Lib.Embed
import Goca.Server

/-!
# The administrator

Two operations are not among the requests of a replica: `DeleteCA` removes an authority together
with everything that it issued, and `apiCertDelete` the record of one certificate. Each has one
statement of its own, so the calls of this module are programs over the statements of a replica and
those two.

The statements fail on their foreign keys: authorities beneath, credentials that are bound to the
authority, and orders that delivered one of its certificates keep an authority; an order that
delivered it keeps a certificate. A vault secret keeps the certificate that it holds, and its
authority; the vault has tables of its own, so that refusal is a fault here.
-/

set_option autoImplicit false

namespace Goca.Store

open Sql (Table)

/-- The statements of `DeleteCA` and of `DeleteCertificate`. -/
inductive DeleteStmt
  | deleteCA (id : Nat)
  | deleteCertificate (id : Nat)

/-- They answer how many rows they removed. -/
abbrev DeleteStmt.Ans : DeleteStmt → Type
  | deleteCA _ | deleteCertificate _ => Except Go.Error Nat

/-- The statements of a replica and the deletions. -/
abbrev adminSig : Interleave.Sig := Interleave.Sig.sum sig ⟨DeleteStmt, DeleteStmt.Ans⟩

/-- Whether an order delivered a certificate of the authority. -/
def World.delivered (w : World) (id : Nat) (o : AcmeOrder) : Bool :=
  o.certificateID.any fun c => (w.ca.certificates.get? c).any (·.caID == id)

/-- The rows that refer to an authority and do not go with it. -/
def World.keepsCA (w : World) (id : Nat) : Bool :=
  w.ca.cas.rows.any (fun c => c.id != id && c.parentID == some id) ||
    w.acme.eabCreds.rows.any (·.caID == some id) || w.acme.orders.rows.any (w.delivered id)

/-- `DELETE FROM cas WHERE id = ?`: the certificates of the authority and the entries of its list
go with it. -/
def World.deleteCA (w : World) (id : Nat) : Except Go.Error Nat × World :=
  if (w.ca.cas.get? id).isNone then (.ok 0, w)
  else if w.keepsCA id then (.error (.driver "FOREIGN KEY constraint failed"), w)
  else (.ok 1, { w with ca := {
    cas := w.ca.cas.delete (·.id == id)
    certificates := w.ca.certificates.delete (·.caID == id)
    caRevocations := w.ca.caRevocations.delete (·.caID == id) } })

/-- `DELETE FROM certificates WHERE id = ?`: an order that delivered the certificate keeps it. -/
def World.deleteCertificate (w : World) (id : Nat) : Except Go.Error Nat × World :=
  if (w.ca.certificates.get? id).isNone then (.ok 0, w)
  else if w.acme.orders.rows.any (·.certificateID == some id) then
    (.error (.driver "FOREIGN KEY constraint failed"), w)
  else (.ok 1, { w with ca := { w.ca with
    certificates := w.ca.certificates.delete (·.id == id) } })

/-- A deletion under an environment, as every statement. -/
def deleteExec : Interleave.Sem ⟨DeleteStmt, DeleteStmt.Ans⟩ Env World
  | e, w, .deleteCA id => if 0 < e.now then some (e.fault.apply w (w.deleteCA id)) else none
  | e, w, .deleteCertificate id =>
    if 0 < e.now then some (e.fault.apply w (w.deleteCertificate id)) else none

/-- One statement of a replica or of the administrator. -/
def adminExec [Go.Runtime] : Interleave.Sem adminSig Env World :=
  Interleave.Sem.sum id (fun _ w => w) exec deleteExec

/-- `DeleteCA` removes a CA and (by cascade) its issued certificates. -/
def deleteCA (id : Nat) : Interleave.Act adminSig Go.Error Unit :=
  Interleave.Act.mapResult affected (ExceptT.mk (.ask (.inr (.deleteCA id)) .pure))

/-- `DeleteCertificate` permanently removes a certificate record. -/
def deleteCertificate (id : Nat) : Interleave.Act adminSig Go.Error Unit :=
  Interleave.Act.mapResult affected (ExceptT.mk (.ask (.inr (.deleteCertificate id)) .pure))

end Goca.Store

namespace Goca

open Goca.Store (Env World adminSig adminExec)
open Interleave (Act Pool Prog)

/-- `DeleteCA` removes a CA and all certificates it issued. -/
def Ca.Service.deleteCA (s : Ca.Service) (id : Nat) (actor : String) : Act adminSig Go.Error Unit :=
  do
  let c ← (Store.getCA id).embed
  Store.deleteCA id
  (s.audit actor "ca.delete" c.name "cascade delete of issued certificates").embed

/-- `apiCertDelete` removes the record of a certificate. `handleCertDelete` and the command line do
the same. -/
def Web.apiCertDelete (s : Ca.Service) (id : Nat) (actor ip : String) :
    Act adminSig Go.Error Unit := do
  let c ← (Store.getCertificate id).embed
  Store.deleteCertificate id
  (s.recordAudit actor "cert.delete" c.commonName ("serial=" ++ c.serialHex) ip).embed

/-- What can be asked of a replica and by its administrators. -/
inductive Task
  | call (c : Call)
  | deleteCA (svc : Ca.Service) (id : Nat) (actor : String)
  | deleteCertificate (svc : Ca.Service) (id : Nat) (actor ip : String)

/-- A deletion is done, or it answers an error. -/
def deleting (x : Act adminSig Go.Error Unit) : Prog adminSig Reply :=
  x.run.bind fun
    | .ok () => .pure .done
    | .error e => .pure (.failed e)

/-- The program of a task. -/
def Task.serve [Go.Runtime] : Task → Prog adminSig Reply
  | .call c => c.serve.embed
  | .deleteCA svc id actor => deleting (svc.deleteCA id actor)
  | .deleteCertificate svc id actor ip => deleting (Web.apiCertDelete svc id actor ip)

/-- The tasks that are in progress over a world, none of which has asked anything yet. -/
def tasks [Go.Runtime] (w : World) (ts : List Task) : Pool adminSig Reply World :=
  .init w (ts.map Task.serve)

/-- The tasks before move `i` of a schedule. -/
def tasksUpto [Go.Runtime] (w : World) (ts : List Task) (moves : Pool.Schedule Env) (i : Nat) :
    Pool adminSig Reply World := (tasks w ts).upto adminExec moves i

end Goca
