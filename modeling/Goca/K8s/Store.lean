import Goca.Store.Ca
import Goca.Store.World

/-!
# The Kubernetes trust domains

The rows of `k8s_auth_methods`, the statements over them, and what package store makes of these. A
trust domain is a cluster whose service accounts may authenticate, under a name that nobody else
has; `secret_bindings` refers to it by that name, and by no foreign key. The environment of a
statement is whether the connection fails, before or after the statement took effect.
-/

set_option autoImplicit false

namespace Goca.K8s

open Sql (Table)
open Goca.Store (Fault)

/-- `K8sAuthMethod`: a row of `k8s_auth_methods`. -/
structure K8sAuthMethod where
  id : Nat := 0
  name : String
  audience : String := ""
  issuerURL : String := ""
  apiServerURL : String := ""
  caCert : String := ""
  reviewerTokenEnc : String := ""
  insecureSkipVerify : Bool := false
  disabled : Bool := false
  createdBy : String := ""
  deriving Repr, DecidableEq

instance : Sql.Keyed K8sAuthMethod := ⟨K8sAuthMethod.id⟩

/-- The table of the trust domains. -/
abbrev World := Table K8sAuthMethod

/-! ## Statements -/

/-- A statement over the table. -/
inductive Stmt
  | insertMethod (m : K8sAuthMethod)
  | selectMethod (id : Nat)
  | selectMethodByName (name : String)
  | listMethods
  | updateMethod (m : K8sAuthMethod)
  | setMethodDisabled (id : Nat) (disabled : Bool)
  | deleteMethod (id : Nat)
  deriving Repr, DecidableEq

/-- What a statement answers when it does not fail. -/
abbrev Stmt.Res : Stmt → Type
  | insertMethod _ => Nat
  | selectMethod _ => Option K8sAuthMethod
  | selectMethodByName _ => Option K8sAuthMethod
  | listMethods => List K8sAuthMethod
  | updateMethod _ => Nat
  | setMethodDisabled _ _ => Nat
  | deleteMethod _ => Nat

/-- The statements over the trust domains. -/
abbrev sig : Interleave.Sig := ⟨Stmt, fun s => Except Go.Error s.Res⟩

/-- A handler over the trust domains. -/
abbrev Handler (ε α : Type) := Interleave.Act sig ε α

/-- What an update writes into a row. -/
def K8sAuthMethod.overwrite (m : K8sAuthMethod) (row : K8sAuthMethod) : K8sAuthMethod :=
  { row with
    audience := m.audience
    issuerURL := m.issuerURL
    apiServerURL := m.apiServerURL
    caCert := m.caCert
    reviewerTokenEnc := m.reviewerTokenEnc
    insecureSkipVerify := m.insecureSkipVerify
    disabled := m.disabled }

/-- What a statement answers and leaves. -/
def World.exec (w : World) : (s : Stmt) → Except Go.Error s.Res × World
  | .insertMethod m =>
    if w.rows.any (·.name == m.name) then
      (.error (.driver "UNIQUE constraint failed: k8s_auth_methods.name"), w)
    else (.ok (w.seq + 1), w.insert (fun id => { m with id }) fun _ => rfl)
  | .selectMethod id => (.ok (w.get? id), w)
  | .selectMethodByName name => (.ok (w.rows.find? (·.name == name)), w)
  | .listMethods => (.ok w.rows, w)
  | .updateMethod m =>
    (.ok (w.count (·.id == m.id)), w.update (·.id == m.id) m.overwrite fun _ => rfl)
  | .setMethodDisabled id disabled =>
    (.ok (w.count (·.id == id)),
      w.update (·.id == id) (fun m => { m with disabled }) fun _ => rfl)
  | .deleteMethod id => (.ok (w.count (·.id == id)), w.delete (·.id == id))

/-- **One statement.** -/
def exec : Interleave.Sem sig Fault World := fun fault w s => some (fault.apply w (w.exec s))

/-! ## Package store -/

/-- Ask one statement. -/
def db (s : Stmt) : Handler Go.Error s.Res := ExceptT.mk (.ask s .pure)

/-- `CreateK8sAuthMethod` stores a new trust domain. -/
def createK8sAuthMethod (m : K8sAuthMethod) : Handler Go.Error K8sAuthMethod := do
  let id ← db (.insertMethod { m with audience := Store.nz m.audience "goca-csi" })
  (db (.selectMethod id)).mapResult Store.row

/-- `GetK8sAuthMethod` fetches one trust domain by id, including the encrypted reviewer token. -/
def getK8sAuthMethod (id : Nat) : Handler Go.Error K8sAuthMethod :=
  (db (.selectMethod id)).mapResult Store.row

/-- `GetK8sAuthMethodByName` fetches one trust domain by its unique name. -/
def getK8sAuthMethodByName (name : String) : Handler Go.Error K8sAuthMethod :=
  (db (.selectMethodByName name)).mapResult Store.row

/-- `ListK8sAuthMethods` returns every trust domain, oldest first. -/
def listK8sAuthMethods : Handler Go.Error (List K8sAuthMethod) := db .listMethods

/-- `UpdateK8sAuthMethod` changes a trust domain; an empty token keeps the stored one. -/
def updateK8sAuthMethod (m : K8sAuthMethod) : Handler Go.Error K8sAuthMethod := do
  let token ←
    (if m.reviewerTokenEnc = "" then do
      let existing ← getK8sAuthMethod m.id
      pure existing.reviewerTokenEnc
    else pure m.reviewerTokenEnc)
  (db (.updateMethod { m with
    audience := Store.nz m.audience "goca-csi"
    reviewerTokenEnc := token })).mapResult Store.affected
  getK8sAuthMethod m.id

/-- `SetK8sAuthMethodDisabled` enables or disables a trust domain. -/
def setK8sAuthMethodDisabled (id : Nat) (disabled : Bool) : Handler Go.Error Unit :=
  (db (.setMethodDisabled id disabled)).mapResult Store.affected

/-- `DeleteK8sAuthMethod` removes a trust domain. -/
def deleteK8sAuthMethod (id : Nat) : Handler Go.Error Unit :=
  (db (.deleteMethod id)).mapResult Store.affected

end Goca.K8s
