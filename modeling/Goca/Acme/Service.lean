import Mathlib.Algebra.Group.Nat.Defs
import Goca.Ca.Service
import Goca.Acme.Policy

/-!
# Package acme: nonces, accounts and authentication

Every endpoint that an account signs goes through `authenticate`: parse, check the url, redeem the
nonce, resolve the account from kid, verify under its stored key. `newAccount` is the one way to
become an account, and external account binding the one way through it.
-/

set_option autoImplicit false

namespace Goca.Acme

open Go (Time)
open Goca.Pki (PublicKey)
open Goca.Store
open Interleave (Act.failIf)

/-- The ACME service: the certificate service it is built on. -/
structure Service where
  caSvc : Ca.Service
  deriving Repr, DecidableEq

/-- Record an action without an address. -/
def Service.audit {ε : Type} (s : Service) (actor action target detail : String) :
    Handler ε Unit := s.caSvc.recordAudit actor action target detail ""

/-- A store error that ends the request. -/
def orInternal {α : Type} (x : Handler Go.Error α) : Handler Problem α :=
  x.mapError fun e => serverInternal e.text

/-- A check that refuses a request as malformed. -/
def orMalformed {α : Type} (r : Except Go.Error α) : Except Problem α :=
  r.mapError fun e => malformed e.text

/-! ## URLs -/

/-- `acmeBase`. -/
def Service.acmeBase (s : Service) : String := Go.trimRight s.caSvc.cfg.baseURL "/" ++ "/acme"

def Service.newAccountURL (s : Service) : String := s.acmeBase ++ "/new-account"
def Service.newOrderURL (s : Service) : String := s.acmeBase ++ "/new-order"
def Service.revokeCertURL (s : Service) : String := s.acmeBase ++ "/revoke-cert"
def Service.accountURL (s : Service) (id : Nat) : String :=
  s.acmeBase ++ "/account/" ++ toString id
def Service.accountOrdersURL (s : Service) (id : Nat) : String := s.accountURL id ++ "/orders"
def Service.orderURL (s : Service) (id : Nat) : String := s.acmeBase ++ "/order/" ++ toString id
def Service.finalizeURL (s : Service) (id : Nat) : String := s.orderURL id ++ "/finalize"
def Service.authzURL (s : Service) (id : Nat) : String := s.acmeBase ++ "/authz/" ++ toString id
def Service.challengeURL (s : Service) (id : Nat) : String :=
  s.acmeBase ++ "/challenge/" ++ toString id
def Service.certURL (s : Service) (id : Nat) : String := s.acmeBase ++ "/cert/" ++ toString id

/-- The account id that a kid ends in: `/acme/account/(\d+)$`. A number outside 64 bits does not
scan and leaves zero. -/
def accountIDOf (kid : String) : Option Nat :=
  let runes := kid.toList.reverse
  let digits := (runes.takeWhile Char.isDigit).reverse
  let before := (runes.drop digits.length).reverse
  if digits ≠ [] ∧ "/acme/account/".toList.isSuffixOf before = true then
    let n := digits.foldl (fun n c => n * 10 + (c.toNat - '0'.toNat)) 0
    some (if n < 2 ^ 63 then n else 0)
  else none

/-! ## Nonces -/

/-- How long an issued nonce remains redeemable, in seconds. -/
def nonceTTL : Int := 600

/-- `randomToken`. -/
def randomToken : Handler Go.Error String := Pki.hostCall (host .randomToken)

/-- `NonceManager.New` issues and records a fresh nonce. -/
def newNonce : Handler Go.Error String := do
  let n ← randomToken
  let t ← now
  createAcmeNonce n (t + nonceTTL)
  pure n

/-- `NonceManager.Consume` redeems a nonce. -/
def consumeNonce {ε : Type} (n : String) : Handler ε Bool :=
  if n = "" then pure false
  else do
    let t ← now
    let r ← (consumeAcmeNonce n t).attempt
    pure (match r with
      | .ok redeemed => redeemed
      | .error _ => false)

/-- `NonceManager.Purge` drops expired nonces nobody redeemed. -/
def purgeNonces : Handler Go.Error Nat := do
  let t ← now
  purgeExpiredAcmeNonces t

/-- `checkURL`: the url header must be the URL of the endpoint. -/
def checkURL (j : ParsedJWS) (want : String) : Except Problem Unit :=
  if j.url ≠ want then
    .error (unauthorized "this request's url header does not match the endpoint it was sent to")
  else .ok ()

/-- `checkNonce`. -/
def checkNonce (j : ParsedJWS) : Handler Problem Unit := do
  let redeemed ← consumeNonce j.nonce
  Act.failIf (redeemed = false) (badNonce "the nonce was missing, unknown, or already used")

/-! ## Registration -/

/-- `AccountObject`. -/
structure AccountObject where
  status : String
  contact : List String
  orders : String

/-- `accountObject`. -/
def Service.accountObject (s : Service) (a : AcmeAccount) : AccountObject :=
  ⟨a.status.text, a.contact, s.accountOrdersURL a.id⟩

/-- `NewAccountResult`: the account, its object, and whether it was created now. -/
structure NewAccountResult where
  account : AcmeAccount
  object : AccountObject
  created : Bool

/-- Refuse a registration and record why. -/
def Service.rejectAccount {α : Type} (s : Service) (keyID reason : String) :
    Handler Problem α := do
  s.audit "acme" "acme.account.rejected" keyID reason
  throw (externalAccountRequired reason)

/-- A repeat registration: the existing account, unless it is no longer valid. -/
def Service.existingAccount (s : Service) (existing : AcmeAccount) :
    Handler Problem NewAccountResult := do
  Act.failIf (existing.status ≠ .valid)
    (unauthorized ("the account for this key is " ++ existing.status.text))
  let _ ← (touchAcmeAccountUsed existing.id).attempt
  pure ⟨existing, s.accountObject existing, false⟩

/-- The credential of a registration: its binding verifies and it is usable. -/
def Service.bindingCred (s : Service) (req : NewAccountRequest) (url : String) (jwk : PublicKey) :
    Handler Problem (String × EABCred) := do
  let bound ← (verifyEAB req.externalAccountBinding url jwk).attempt
  match bound with
  | .error (keyID, e) => s.rejectAccount keyID e.text
  | .ok (keyID, cred) =>
    let t ← now
    if cred.usable t then pure (keyID, cred)
    else
      s.rejectAccount keyID
        "the external account binding key is disabled, expired, or has reached its account limit"

/-- The last part of `NewAccount`: reserve a slot, store the account, and give the slot back when
storing it failed. -/
def Service.register (s : Service) (keyID : String) (cred : EABCred) (jwk : PublicKey)
    (contact : List String) : Handler Problem NewAccountResult := do
  let reserved ← orInternal (reserveEABAccountSlot cred.id)
  if reserved = false then
    s.rejectAccount keyID "the external account binding key has reached its account limit"
  else
    let created ← (createAcmeAccount {
      eabID := cred.id
      jwk := jwk
      jwkThumbprint := jwk
      contact := contact
      status := .valid }).attempt
    match created with
    | .error e =>
      let _ ← (releaseEABAccountSlot cred.id).attempt
      throw (serverInternal e.text)
    | .ok account =>
      s.audit ("acme:" ++ cred.name) "acme.account.create" (toString account.id)
        ("eab=" ++ cred.name ++ " contact=" ++ Go.listText contact)
      pure ⟨account, s.accountObject account, true⟩

/-- The key that a new-account request embeds and is signed with. -/
def embeddedKey (j : ParsedJWS) : Except Problem PublicKey :=
  match j.jwk with
  | none => .error (malformed "new-account requests must be signed with an embedded jwk, not kid")
  | some jwk => (orMalformed (j.verify jwk)).map fun _ => jwk

/-- `NewAccount` handles POST /new-account. -/
def Service.newAccount [Go.Runtime] (s : Service) (body : Body) :
    Handler Problem NewAccountResult := do
  let j ← .ofExcept (orMalformed (parseJWS body))
  .ofExcept (checkURL j s.newAccountURL)
  checkNonce j
  let jwk ← .ofExcept (embeddedKey j)
  let req ← .ofExcept (orMalformed (j.payload.decode {} j.payload.newAccount))
  let existing ← (getAcmeAccountByThumbprint jwk).attempt
  match existing with
  | .ok account => s.existingAccount account
  | .error e =>
    Act.failIf (e.isNotFound = false) (serverInternal e.text)
    Act.failIf (req.onlyReturnExisting = true)
      (accountDoesNotExist "no account is registered for this key")
    .ofExcept (validContacts req.contact)
    let (keyID, cred) ← s.bindingCred req j.url jwk
    s.register keyID cred jwk req.contact

/-! ## Authentication -/

/-- A request that has been fully authenticated against an existing account's key. -/
structure AuthedRequest where
  jws : ParsedJWS
  account : AcmeAccount

/-- `ResolveAccount` loads the account a kid refers to and checks it is still usable. -/
def resolveAccount (kid : String) : Handler Problem AcmeAccount :=
  match accountIDOf kid with
  | none => throw (accountDoesNotExist "malformed account url")
  | some id => do
    let a ← (getAcmeAccount id).mapError fun _ => accountDoesNotExist "no such account"
    Act.failIf (a.status ≠ .valid) (unauthorized ("this account is " ++ a.status.text))
    pure a

/-- `authenticate` is the common path of every endpoint that an existing account must sign. -/
def authenticate (body : Body) (expectedURL : String) : Handler Problem AuthedRequest := do
  let j ← .ofExcept (orMalformed (parseJWS body))
  .ofExcept (checkURL j expectedURL)
  checkNonce j
  Act.failIf (j.keyID = "")
    (malformed "this request must be signed with kid, not an embedded jwk")
  let account ← resolveAccount j.keyID
  .ofExcept (orMalformed (j.verify account.jwk))
  let _ ← (touchAcmeAccountUsed account.id).attempt
  pure ⟨j, account⟩

/-- The changes an account update asks for, checked before anything is changed. -/
def checkUpdate [Go.Runtime] (req : UpdateAccountRequest) : Except Problem Unit :=
  if req.status ≠ "" ∧ req.status ≠ AcmeStatus.deactivated.text then
    .error (malformed ("status can only be set to " ++ Go.quote AcmeStatus.deactivated.text))
  else validContacts (req.contact.getD [])

/-- Update the contact list of an account, where the request has one. -/
def updateContact (a : AcmeAccount) :
    Option (List String) → Handler Problem AcmeAccount
  | none => pure a
  | some contact => do
    orInternal (setAcmeAccountContact a.id contact)
    pure { a with contact }

/-- Deactivate an account, where the request asks for it. -/
def Service.deactivateIf (s : Service) (wanted : Bool) (a : AcmeAccount) :
    Handler Problem AcmeAccount :=
  if wanted then do
    orInternal (setAcmeAccountStatus a.id .deactivated)
    s.audit ("acme:account:" ++ toString a.id) "acme.account.deactivate" (toString a.id) ""
    pure { a with status := .deactivated }
  else pure a

/-- `GetAccount` handles a POST to an account URL: a fetch, or an update. -/
def Service.getAccount [Go.Runtime] (s : Service) (accountID : Nat) (body : Body) :
    Handler Problem AccountObject := do
  let ar ← authenticate body (s.accountURL accountID)
  Act.failIf (ar.account.id ≠ accountID) (unauthorized "this is not your account")
  if ar.jws.isPostAsGet then pure (s.accountObject ar.account)
  else
    let req ← .ofExcept (orMalformed (ar.jws.payload.decode {} ar.jws.payload.updateAccount))
    .ofExcept (checkUpdate req)
    let account ← updateContact ar.account req.contact
    let account ← s.deactivateIf (req.status == AcmeStatus.deactivated.text) account
    pure (s.accountObject account)

/-- `activeCred` loads the credential an account was bootstrapped with and refuses the request if it
has been disabled. -/
def Service.activeCred (s : Service) (account : AcmeAccount) : Handler Problem EABCred := do
  let cred ← orInternal (getEABCred account.eabID)
  if cred.disabled then do
    s.audit ("acme:account:" ++ toString account.id) "acme.order.rejected" cred.name
      "external account binding credential is disabled"
    throw (unauthorized ("the external account binding credential " ++ Go.quote cred.name ++
      " this account was registered with has been disabled"))
  else pure cred

end Goca.Acme
