import Goca.Go.Strings

/-!
# ACME problem documents

The error values of the ACME service: the standard error types, each with the HTTP status it is
answered with.
-/

set_option autoImplicit false

namespace Goca.Acme

/-- A problem document. -/
structure Problem where
  type : String
  detail : String
  status : Nat
  deriving Repr, DecidableEq

/-- The namespace of the standard error types. -/
def errNS : String := "urn:ietf:params:acme:error:"

/-- `problem`. -/
def problem (kind : String) (status : Nat) (detail : String) : Problem :=
  ⟨errNS ++ kind, detail, status⟩

def badNonce (detail : String) : Problem := problem "badNonce" 400 detail
def malformed (detail : String) : Problem := problem "malformed" 400 detail
def unauthorized (detail : String) : Problem := problem "unauthorized" 401 detail
def accountDoesNotExist (detail : String) : Problem := problem "accountDoesNotExist" 400 detail
def rejectedIdentifier (detail : String) : Problem := problem "rejectedIdentifier" 400 detail
def unsupportedIdentifier (detail : String) : Problem := problem "unsupportedIdentifier" 400 detail
def orderNotReady (detail : String) : Problem := problem "orderNotReady" 403 detail
def badCSR (detail : String) : Problem := problem "badCSR" 400 detail
def badRevocationReason (detail : String) : Problem := problem "badRevocationReason" 400 detail
def alreadyRevoked (detail : String) : Problem := problem "alreadyRevoked" 400 detail
def externalAccountRequired (detail : String) : Problem :=
  problem "externalAccountRequired" 400 detail
def invalidContact (detail : String) : Problem := problem "invalidContact" 400 detail
def unsupportedContact (detail : String) : Problem := problem "unsupportedContact" 400 detail
def serverInternal (detail : String) : Problem := problem "serverInternal" 500 detail
def notFound (detail : String) : Problem := problem "malformed" 404 detail

end Goca.Acme
