import Goca.Store.Ca

/-!
# Package store: ACME objects

The functions of the store over the ACME tables. The three conditional updates, reserving an account
slot, claiming an order and redeeming a nonce, are one statement each and report whether it found
its row; the unconditional ones report nothing.
-/

set_option autoImplicit false

namespace Goca.Store

open Go (Time)
open Goca.Pki (PublicKey)

/-- Whether a conditional update affected its one row. -/
def affectedOne : Except Go.Error Nat → Except Go.Error Bool := Except.map (· == 1)

/-! ## External account binding credentials -/

/-- `GetEABCred` fetches one credential by id. -/
def getEABCred (id : Nat) : Handler Go.Error EABCred := (acme (.selectEABCred id)).mapResult row

/-- `GetEABCredByKeyID` looks up a credential by its public keyID. -/
def getEABCredByKeyID (keyID : String) : Handler Go.Error EABCred :=
  (acme (.selectEABCredByKeyID keyID)).mapResult row

/-- `ReserveEABAccountSlot` counts one more account against a credential, or refuses. -/
def reserveEABAccountSlot (id : Nat) : Handler Go.Error Bool :=
  (acme (.reserveEABAccountSlot id)).mapResult affectedOne

/-- `ReleaseEABAccountSlot` gives back a reserved slot. -/
def releaseEABAccountSlot (id : Nat) : Handler Go.Error Unit := acme (.releaseEABAccountSlot id)

/-! ## Accounts -/

/-- `GetAcmeAccount` fetches one account by id. -/
def getAcmeAccount (id : Nat) : Handler Go.Error AcmeAccount :=
  (acme (.selectAcmeAccount id)).mapResult row

/-- `GetAcmeAccountByThumbprint` finds the account registered with a given public key. -/
def getAcmeAccountByThumbprint (thumbprint : PublicKey) : Handler Go.Error AcmeAccount :=
  (acme (.selectAcmeAccountByThumbprint thumbprint)).mapResult row

/-- `CreateAcmeAccount` registers a new account and reads it back. -/
def createAcmeAccount (a : AcmeAccount) : Handler Go.Error AcmeAccount := do
  let id ← acme (.insertAcmeAccount a)
  getAcmeAccount id

/-- `SetAcmeAccountStatus` updates account status. -/
def setAcmeAccountStatus (id : Nat) (status : AcmeStatus) : Handler Go.Error Unit :=
  (acme (.setAcmeAccountStatus id status)).mapResult affected

/-- `SetAcmeAccountContact` updates an account's contact list. -/
def setAcmeAccountContact (id : Nat) (contact : List String) : Handler Go.Error Unit :=
  acme (.setAcmeAccountContact id contact)

/-- `TouchAcmeAccountUsed` stamps last_used_at. -/
def touchAcmeAccountUsed (id : Nat) : Handler Go.Error Unit := acme (.touchAcmeAccountUsed id)

/-! ## Orders -/

/-- `GetAcmeOrder` fetches one order by id. -/
def getAcmeOrder (id : Nat) : Handler Go.Error AcmeOrder :=
  (acme (.selectAcmeOrder id)).mapResult row

/-- `CreateAcmeOrder` stores a new order. -/
def createAcmeOrder (o : AcmeOrder) : Handler Go.Error AcmeOrder := do
  let id ← acme (.insertAcmeOrder o)
  getAcmeOrder id

/-- `GetAcmeOrderByCertificate` returns the ACME order that produced a certificate. -/
def getAcmeOrderByCertificate (certID : Nat) : Handler Go.Error AcmeOrder :=
  (acme (.selectAcmeOrderByCertificate certID)).mapResult row

/-- `SetAcmeOrderError` marks an order invalid with a problem document, unless it is valid. -/
def setAcmeOrderError (id : Nat) (problem : Acme.Problem) : Handler Go.Error Unit :=
  acme (.setAcmeOrderError id problem)

/-- `ClaimAcmeOrderForFinalize` moves an order from "ready" to "processing", or reports that it was
not ready. -/
def claimAcmeOrderForFinalize (id : Nat) : Handler Go.Error Bool :=
  (acme (.claimAcmeOrderForFinalize id)).mapResult affectedOne

/-- `SetAcmeOrderCertificate` links an order to its certificate and marks it valid. -/
def setAcmeOrderCertificate (id certID : Nat) : Handler Go.Error Unit :=
  acme (.setAcmeOrderCertificate id certID)

/-! ## Authorizations and challenges -/

/-- `GetAcmeAuthorization` fetches one authorization by id. -/
def getAcmeAuthorization (id : Nat) : Handler Go.Error AcmeAuthorization :=
  (acme (.selectAcmeAuthorization id)).mapResult row

/-- `CreateAcmeAuthorization` stores an authorization. -/
def createAcmeAuthorization (a : AcmeAuthorization) : Handler Go.Error AcmeAuthorization := do
  let id ← acme (.insertAcmeAuthorization a)
  getAcmeAuthorization id

/-- `ListAcmeAuthorizationsByOrder` lists an order's authorizations, in creation order. -/
def listAcmeAuthorizationsByOrder (orderID : Nat) : Handler Go.Error (List AcmeAuthorization) :=
  acme (.listAcmeAuthorizationsByOrder orderID)

/-- `GetAcmeChallenge` fetches one challenge by id. -/
def getAcmeChallenge (id : Nat) : Handler Go.Error AcmeChallenge :=
  (acme (.selectAcmeChallenge id)).mapResult row

/-- `CreateAcmeChallenge` stores a challenge. -/
def createAcmeChallenge (c : AcmeChallenge) : Handler Go.Error AcmeChallenge := do
  let id ← acme (.insertAcmeChallenge c)
  getAcmeChallenge id

/-- `ListAcmeChallengesByAuthorization` lists an authorization's challenges. -/
def listAcmeChallengesByAuthorization (authzID : Nat) : Handler Go.Error (List AcmeChallenge) :=
  acme (.listAcmeChallengesByAuthorization authzID)

/-! ## Nonces -/

/-- `CreateAcmeNonce` records a newly issued replay nonce. -/
def createAcmeNonce (nonce : String) (expires : Time) : Handler Go.Error Unit :=
  acme (.insertAcmeNonce nonce expires)

/-- `ConsumeAcmeNonce` redeems a nonce: true for the one caller whose delete removed it. -/
def consumeAcmeNonce (nonce : String) (now : Time) : Handler Go.Error Bool :=
  (acme (.consumeAcmeNonce nonce now)).mapResult affectedOne

/-- `PurgeExpiredAcmeNonces` drops nonces nobody redeemed before they expired. -/
def purgeExpiredAcmeNonces (now : Time) : Handler Go.Error Nat :=
  acme (.purgeExpiredAcmeNonces now)

end Goca.Store
