import Goca.Go.Decimal
import Goca.Server

/-!
# Where revocations come in

The handlers of package web that revoke something, and `RevokeCert` of package acme. Each takes the
reason from another place: a JSON value, a form field or the payload of a JWS, and hands an integer
on. What a handler looks up before that (the certificate, the authority, whose it is) only reads or
refuses, so a request is given here with the numbers that were found.
-/

set_option autoImplicit false

namespace Goca.Pki

/-- `ReasonUnspecified` and the default of a retired authority. -/
def reasonUnspecified : Int := 0

def reasonCessationOfOperation : Int := 5

variable [Go.Runtime]

/-- `normalise` drops blanks and underscores and folds to lower case. -/
def normalise (s : String) : String :=
  Go.toLower (Go.replaceRune (Go.replaceRune (Go.trimSpace s) ' ' []) '_' [])

/-- The cases of `ParseReason`. -/
def reasonCases : List (List String × Int) := [
  (["", "unspecified"], reasonUnspecified),
  (["keycompromise", "key-compromise", "1"], 1),
  (["cacompromise", "ca-compromise", "2"], 2),
  (["affiliationchanged", "affiliation-changed", "3"], 3),
  (["superseded", "4"], reasonSuperseded),
  (["cessationofoperation", "cessation-of-operation", "5"], reasonCessationOfOperation),
  (["certificatehold", "certificate-hold", "hold", "6"], reasonCertificateHold),
  (["privilegewithdrawn", "privilege-withdrawn", "9"], 9),
  (["aacompromise", "aa-compromise", "10"], 10),
  (["0"], reasonUnspecified)]

/-- `ParseReason` accepts a numeric code or a name such as "keyCompromise". -/
def parseReason (s : String) : Except Go.Error Int :=
  match reasonCases.find? fun c => c.1.contains (normalise s) with
  | some c => .ok c.2
  | none => .error (.new ("unknown revocation reason " ++ Go.quote s))

end Goca.Pki

namespace Goca.Web

open Goca.Pki (parseReason reasonUnspecified reasonCessationOfOperation)

/-- A JSON value where a reason is expected. -/
inductive ReasonValue
  | null
  | number (v : Rat)
  | text (s : String)
  /-- A truth value, a list or an object. -/
  | other

/-- `int(v)`: toward zero. What it is of a number beyond 64 bits Go leaves to the machine, and is
not modelled. -/
def truncated (v : Rat) : Int := v.num.tdiv v.den

/-- `atoiDefault`. -/
def atoiDefault (s : String) (default : Int) : Int :=
  if s = "" then default else (Go.parseInt (Go.trimSpace s)).getD default

section

variable [Go.Runtime]

/-- The switch of `apiCertRevoke`: what is neither a number nor a text is unspecified. -/
def certReason : ReasonValue → Except Go.Error Int
  | .number v => .ok (truncated v)
  | .text s => parseReason s
  | .null | .other => .ok reasonUnspecified

/-- `reasonCode` accepts a numeric or named revocation reason from JSON. -/
def reasonCode (v : ReasonValue) (default : Int) : Except Go.Error Int :=
  match v with
  | .null => .ok default
  | .number v => .ok (truncated v)
  | .text s => if Go.trimSpace s = "" then .ok default else parseReason s
  | .other => .error (.new "reason must be a number or a name such as \"keyCompromise\"")

/-- The filter of a bulk revocation: there is none where nothing is asked for. -/
def bulkFilter (query : String) (caID : Nat) (profile status : String) :
    Option Store.CertFilter :=
  if query ≠ "" ∨ 0 < caID ∨ profile ≠ "" ∨ status ≠ "" then
    some { query, caID, profile, status, limit := 1000 }
  else none

/-- A request to revoke something. -/
inductive Revocation
  | apiCertRevoke (id : Nat) (reason : ReasonValue) (actor : String)
  | apiCertBulkRevoke (ids : List Nat) (query : String) (caID : Nat) (profile status : String)
    (reason : ReasonValue) (actor : String)
  /-- `depth` bounds the levels that the descent may take. -/
  | apiCARevoke (depth id : Nat) (reason : ReasonValue) (cascade : Bool) (actor : String)
  | handleCertRevoke (id : Nat) (reason : String) (actor : String)
  | handleCARevoke (depth id : Nat) (reason : String) (cascade : String) (actor : String)
  /-- The action `revoke` of `handleCertBulkAction`, for the numbers that passed its checks. -/
  | handleCertBulkAction (ids : List Nat) (reason : String) (actor : String)
  | acmeRevokeCert (body : Acme.Body)

/-- What a handler asks of package ca or of package acme, or why it refuses. -/
def Revocation.request : Revocation → Except Go.Error Request
  | .apiCertRevoke id reason actor => do
    let code ← certReason reason
    return .revoke id code actor
  | .apiCertBulkRevoke ids query caID profile status reason actor => do
    let code ← reasonCode reason reasonUnspecified
    let filter := bulkFilter query caID profile status
    if ids = [] ∧ filter = none then
      .error (.new ("supply ids, or at least one of query, ca_id, profile or status; " ++
        "an unfiltered bulk revoke is refused"))
    else return .bulkRevoke { ids, filter, reason := code, actor }
  | .apiCARevoke depth id reason cascade actor => do
    let code ← reasonCode reason reasonCessationOfOperation
    return .revokeCA depth id code cascade actor
  | .handleCertRevoke id reason actor =>
    .ok (.revoke id (atoiDefault reason reasonUnspecified) actor)
  | .handleCARevoke depth id reason cascade actor =>
    .ok (.revokeCA depth id (atoiDefault reason reasonCessationOfOperation) (cascade = "1") actor)
  | .handleCertBulkAction ids reason actor =>
    .ok (.bulkRevoke { ids, reason := atoiDefault reason reasonUnspecified, actor })
  | .acmeRevokeCert body => .ok (.revokeCert body)

end

end Goca.Web
