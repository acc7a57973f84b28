import Goca.Lib.Pool
import Goca.Vault.Service

/-!
# Runs of the secret manager

Any number of requests to the secret manager, of any number of replicas over one database, next to
what package ca does over its own tables. A request that only looks something up changes nothing
and is left out, but for the one that materializes a secret.
-/

set_option autoImplicit false

namespace Goca.Vault

open Goca.Pqcrypt (Bytes)
open Go (Time)
open Interleave (Act Pool Prog)

/-- A database whose secret manager is new. -/
def World.fresh (base : Store.World) : World := ⟨base, .empty⟩

/-- A request to the secret manager, or work of package ca. -/
inductive Request
  | create (i : CreateInput)
  | updateMeta (name description labelsJSON : String) (rotationDays : Int) (actor : String)
  | setDisabled (name : String) (disabled : Bool) (actor : String)
  | delete (name actor : String)
  | put (name : String) (value : Bytes) (contentType actor : String)
  | destroyVersion (name : String) (version : Int) (actor : String)
  | materialize (name : String)
  | bind (name namespace_ serviceAccount authMethod : String) (expiresAt : Option Time)
      (actor : String)
  | unbind (bindingID : Nat) (actor : String)
  | ca (x : Store.Handler Go.Error Unit)

/-- An action whose result nobody looks at. -/
def done {α : Type} (x : Handler Go.Error α) : Prog sig (Except Go.Error Unit) :=
  (x.mapResult fun r => r.map fun _ => ()).run

/-- The program of a request, which answers with its error. -/
def Service.serve (s : Service) : Request → Prog sig (Except Go.Error Unit)
  | .create i => done (s.create i)
  | .updateMeta name description labelsJSON rotationDays actor =>
    done (Vault.updateMeta name description labelsJSON rotationDays actor)
  | .setDisabled name disabled actor => done (Vault.setDisabled name disabled actor)
  | .delete name actor => done (Vault.delete name actor)
  | .put name value contentType actor => done (s.put name value contentType actor)
  | .destroyVersion name version actor => done (Vault.destroyVersion name version actor)
  | .materialize name => done (s.materialize name)
  | .bind name namespace_ serviceAccount authMethod expiresAt actor =>
    done (Vault.bind name namespace_ serviceAccount authMethod expiresAt actor)
  | .unbind bindingID actor => done (Vault.unbind bindingID actor)
  | .ca x => done x.embed

/-- Requests in progress over a world, none of which has asked anything yet. -/
def Service.serving (s : Service) (w : World) (rs : List Request) :
    Pool sig (Except Go.Error Unit) World := .init w (rs.map s.serve)

end Goca.Vault
