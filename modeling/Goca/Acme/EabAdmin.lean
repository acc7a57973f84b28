import Goca.Go.Decimal
import Goca.Lib.Embed
import Goca.Lib.Alone
import Goca.Store.Acme

/-!
# Package acme: administration of the credentials

How the command line and the API find the external account binding credential that an
administrator names. Three namespaces overlap, key ids, ids and display names, and they are tried in
this order: the text of a reference decides which credential is disabled or deleted.
-/

set_option autoImplicit false

namespace Goca.Acme

open Goca.Store
open Interleave (Act)

/-- What the administration asks beside the statements of a request. -/
inductive EabStmt
  | listEABCreds
  deriving DecidableEq

abbrev EabStmt.Ans : EabStmt → Type
  | listEABCreds => Except Go.Error (List EABCred)

/-- The statements of the administration and of a request. -/
abbrev eabSig : Interleave.Sig := Interleave.Sig.sum Store.sig ⟨EabStmt, EabStmt.Ans⟩

/-- `ListEABCreds` returns every credential, newest first. -/
def listEABCreds : Act eabSig Go.Error (List EABCred) :=
  ExceptT.mk (.ask (.inr .listEABCreds) .pure)

/-- The credential whose id is the number a reference begins with. No row has a negative id. -/
def credByNumber (ref : String) : Handler Go.Error EABCred :=
  match Go.scanInt ref with
  | some (.ofNat id) => getEABCred id
  | some (.negSucc _) => throw .notFound
  | none => throw (.new "expected integer")

section

variable [Go.Folding]

/-- The credentials that a reference is the display name of, in either case. -/
def named (ref : String) (creds : List EABCred) : List EABCred :=
  creds.filter fun c => Go.equalFold c.name ref

/-- The one credential of a list that has the display name. -/
def onlyNamed (ref : String) (creds : List EABCred) : Except Go.Error EABCred :=
  match named ref creds with
  | [c] => .ok c
  | [] => .error (.new ("no EAB credential matches " ++ Go.quote ref))
  | cs => .error (.new (Go.quote ref ++ " names " ++ toString cs.length ++
      " EAB credentials; use its id or key id instead"))

/-- The last resort of `ResolveEAB`: a display name that one credential has. -/
def credByName (ref : String) : Act eabSig Go.Error EABCred := do
  let all ← listEABCreds
  .ofExcept (onlyNamed ref all)

/-- `ResolveEAB` finds a credential by id, key id, or - when it names exactly one credential -
display name. -/
def resolveEAB (ref : String) : Act eabSig Go.Error EABCred := do
  let ref := Go.trimSpace ref
  Act.failIf (ref = "") (.new "an id, key id or name is required")
  let byKeyID ← (getEABCredByKeyID ref).embed.attempt
  match byKeyID with
  | .ok c => pure c
  | .error _ =>
    let byID ← (credByNumber ref).embed.attempt
    match byID with
    | .ok c => pure c
    | .error _ => credByName ref

end

end Goca.Acme
