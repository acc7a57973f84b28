import Goca.Vault.Requests
import Goca.Web.Fetch

/-!
# Calls to the secret manager and their answers

The requests of package vault once more, now with what they answer, next to the ones that read: the
opening of a version, and the two fetch endpoints. The database rolls a transaction back whose
connection is gone, at whatever moment it notices.
-/

set_option autoImplicit false

namespace Goca.Vault

open Goca.K8s (Identity)
open Goca.Pqcrypt (Bytes)
open Goca.Auth (ApiError)
open Interleave (Pool Prog)

/-- A call to one of the replicas, or the end of a connection. -/
inductive Call
  | request (r : Request)
  | getLatest (name : String)
  | getVersion (name : String) (version : Int)
  | vaultFetch (id : Identity) (ip : String) (body : Except String (List String))
  | esoFetch (id : Identity) (ip key property : String) (all : Bool)
  /-- The database rolls back a transaction. -/
  | disconnect (tx : Nat)

/-- What a call answers. -/
inductive Reply
  | done
  | failed (err : Go.Error)
  | refused (err : ApiError)
  | version (v : SecretVersion)
  | opened (sec : Secret) (value : Bytes)
  | fetched (r : Web.VaultFetchResponse)
  | released (r : Web.EsoSecret)

/-- A handler whose outcome becomes a reply. -/
def replying {ε α : Type} (err : ε → Reply) (ok : α → Reply) (x : Handler ε α) : Prog sig Reply :=
  x.run.bind fun
    | .ok a => .pure (ok a)
    | .error e => .pure (err e)

/-- The program of a call. -/
def Service.answer (s : Service) : Call → Prog sig Reply
  | .request (.put name value contentType actor) =>
    replying .failed .version (s.put name value contentType actor)
  | .request r => replying .failed (fun _ => .done) (ExceptT.mk (s.serve r))
  | .getLatest name => replying .failed (fun r => .opened r.1 r.2) (s.getLatest name)
  | .getVersion name version =>
    replying .failed (fun r => .opened r.1 r.2) (s.getVersion name version)
  | .vaultFetch id ip body => replying .refused .fetched (Web.apiVaultFetch s id ip body)
  | .esoFetch id ip key property all =>
    replying .refused .released (Web.apiESOFetchSecret s id ip key property all)
  | .disconnect tx => replying .failed (fun _ => .done) (db (.rollback tx))

variable (s : Service)

/-- Calls in progress over a world, none of which has asked anything yet. -/
def Service.answering (w : World) (calls : List Call) : Pool sig Reply World :=
  .init w (calls.map s.answer)

/-- The calls before move `i` of a schedule, over a database whose secret manager is new. -/
def Service.answeringUpto [Go.Runtime] (base : Store.World) (calls : List Call)
    (moves : Pool.Schedule Store.Env) (i : Nat) : Pool sig Reply World :=
  (s.answering (.fresh base) calls).upto exec moves i

end Goca.Vault
