import Goca.Lib.Embed
import Goca.Ca.Lifecycle
import Goca.Store.World

/-!
# Package ca: the history of renewals

`RenewalHistory` walks the links between a certificate and its replacements, back and ahead. It has
one statement of its own, the search for a replacement, so its program is one over the statements
of a replica and that one.

No statement of the walk can make it fail: an error of the store ends the loop that met it, and
what was found by then is the history.
-/

set_option autoImplicit false

namespace Goca.Store

/-- The statement of `CertificateRenewedFrom`. -/
inductive LineageStmt
  | certificateRenewedFrom (id : Nat)

/-- It answers one row, or none. -/
abbrev LineageStmt.Ans : LineageStmt → Type
  | certificateRenewedFrom _ => Except Go.Error (Option Certificate)

/-- The statements of a replica and the search for a replacement. -/
abbrev historySig : Interleave.Sig := Interleave.Sig.sum sig ⟨LineageStmt, LineageStmt.Ans⟩

/-- `WHERE renewed_from = ? ORDER BY id ASC LIMIT 1`. -/
def CaTables.certificateRenewedFrom (t : CaTables) (id : Nat) : Option Certificate :=
  ((t.certificates.rows.filter (·.renewedFrom == some id)).insertionSort
    fun a b => a.id ≤ b.id).head?

/-- The search under an environment, as every statement. -/
def lineageExec : Interleave.Sem ⟨LineageStmt, LineageStmt.Ans⟩ Env World
  | e, w, .certificateRenewedFrom id =>
    if 0 < e.now then some (e.fault.apply w (.ok (w.ca.certificateRenewedFrom id), w)) else none

/-- One statement of a replica or of the walk. -/
def historyExec [Go.Runtime] : Interleave.Sem historySig Env World :=
  Interleave.Sem.sum id (fun _ w => w) exec lineageExec

/-- `CertificateRenewedFrom` returns the certificate that replaced the given one, or none when it
has not been renewed. -/
def certificateRenewedFrom (id : Nat) : Interleave.Act historySig Go.Error (Option Certificate) :=
  ExceptT.mk (.ask (.inr (.certificateRenewedFrom id)) .pure)

end Goca.Store

namespace Goca.Ca

open Goca.Store
open Interleave (Act)

variable {ε : Type}

/-- The loop back of `RenewalHistory`, with the hops that are left. -/
def predecessors : Nat → Certificate → Act historySig ε (List Certificate)
  | 0, _ => pure []
  | hops + 1, cur =>
    match cur.renewedFrom with
    | none => pure []
    | some id => do
      let prev ← (getCertificate id).embed.attempt
      match prev with
      | .error _ => pure []
      | .ok prev => do
        let back ← predecessors hops prev
        pure (back ++ [prev])

/-- The loop ahead of `RenewalHistory`, with the hops that are left. -/
def successors : Nat → Certificate → Act historySig ε (List Certificate)
  | 0, _ => pure []
  | hops + 1, next => do
    let successor ← (certificateRenewedFrom next.id).attempt
    match successor with
    | .error _ => pure []
    | .ok none => pure []
    | .ok (some successor) => do
      let ahead ← successors hops successor
      pure (successor :: ahead)

/-- How far `RenewalHistory` walks in either direction. -/
def historyHops : Nat := 64

/-- `RenewalHistory` returns the rotation chain a certificate belongs to, oldest first, following
`renewed_from` links in both directions. -/
def renewalHistory (c : Certificate) : Act historySig ε (List Certificate) := do
  let back ← predecessors historyHops c
  let ahead ← successors historyHops c
  pure (back ++ c :: ahead)

end Goca.Ca
