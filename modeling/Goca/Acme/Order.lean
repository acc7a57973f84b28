import Mathlib.Data.List.Sort
import Goca.Acme.Service

/-!
# Package acme: orders

An order is created ready, with every authorization and challenge already valid, and finalized at
most once: `finalize` claims it in one conditional update, issues through the certificate service,
and links the certificate. What makes a request fail before the claim leaves the order ready or
marks it invalid.
-/

set_option autoImplicit false

namespace Goca.Acme

open Go (Time)
open Goca.Pki (CSR Subject parseCSR)
open Goca.Store
open Interleave (Act.failIf)

/-- `OrderObject`. -/
structure OrderObject where
  status : String
  expires : String
  identifiers : List AcmeIdentifier
  error : Option Problem
  authorizations : List String
  finalize : String
  certificate : String
  notAfter : String

/-- How long an order is considered current, in seconds. -/
def orderTTL : Int := 86400

/-- How long an authorization is considered current, in seconds. -/
def authzTTL : Int := 86400

/-- `OrderObjectFor` builds the wire representation of a stored order. -/
def Service.orderObjectFor (s : Service) (o : AcmeOrder) : Handler Go.Error OrderObject := do
  let authzs ← listAcmeAuthorizationsByOrder o.id
  pure {
    status := o.status.text
    expires := o.expiresAt.rfc3339
    identifiers := o.identifiers
    error := o.error
    authorizations := authzs.map fun a => s.authzURL a.id
    finalize := s.finalizeURL o.id
    certificate := (o.certificateID.map s.certURL).getD ""
    notAfter := (o.notAfter.map Time.rfc3339).getD "" }

/-! ## New orders -/

section

variable [Go.Runtime]

/-- One requested identifier: normalized, and checked against the syntax of names and the domains
of the credential. -/
def checkIdentifier (cred : EABCred) (id : AcmeIdentifier) : Except Problem AcmeIdentifier :=
  let lowered := Go.toLower (Go.trimSpace id.type)
  let typ := if lowered = "" then "dns" else lowered
  if typ ≠ "dns" then .error (unsupportedIdentifier ("identifier type " ++ Go.quote typ ++
    " is not supported; only \"dns\" is"))
  else
    let val := Go.toLower (Go.trimSpace id.value)
    if val = "" then .error (malformed "an identifier value must not be empty")
    else match validDNSIdentifier val with
    | .error e => .error (rejectedIdentifier (Go.quote val ++ ": " ++ e.text))
    | .ok () =>
      if domainAllowed cred.allowedDomains val = false then
        .error (rejectedIdentifier (Go.quote val ++
          " is outside the domains permitted for this account's credential " ++
          Go.quote cred.name))
      else .ok ⟨"dns", val⟩

/-- The identifiers of an order, each checked in turn. -/
def checkIdentifiers (cred : EABCred) :
    List AcmeIdentifier → Except Problem (List AcmeIdentifier)
  | [] => .ok []
  | id :: rest => do
    let checked ← checkIdentifier cred id
    let more ← checkIdentifiers cred rest
    return checked :: more

/-- `requestedNotAfter` validates the certificate lifetime a new order asks for. -/
def Service.requestedNotAfter (s : Service) (req : NewOrderRequest) (cred : EABCred)
    (now : Time) : Except Problem (Option Time) :=
  if Go.trimSpace req.notBefore ≠ "" then
    .error (malformed "notBefore is not supported; certificates are valid from issuance")
  else if Go.trimSpace req.notAfter = "" then .ok none
  else match Go.Runtime.parseRFC3339 req.notAfter with
  | none => .error (malformed ("notAfter " ++ Go.quote req.notAfter ++
      " is not an RFC 3339 timestamp"))
  | some t =>
    let maxDays := if cred.days ≤ 0 then s.caSvc.cfg.defaultCertDays else cred.days
    if t.after now = false then
      .error (malformed ("notAfter " ++ req.notAfter ++ " is not in the future"))
    else if t.after (now.addDays maxDays + 60) then
      .error (malformed ("notAfter " ++ req.notAfter ++
        " is beyond this credential's maximum validity of " ++ toString maxDays ++ " days"))
    else .ok (some t)

end

/-- The authorization and the challenge of one identifier, both already valid. -/
def authorizeIdentifier (orderID : Nat) (now : Time) (id : AcmeIdentifier) :
    Handler Problem Unit := do
  let authz ← orInternal (createAcmeAuthorization {
    orderID := orderID
    identifierType := id.type
    identifierValue := id.value
    wildcard := Go.hasPrefix id.value "*."
    status := .valid
    expiresAt := now + authzTTL })
  let token ← orInternal randomToken
  let _ ← orInternal (createAcmeChallenge {
    authorizationID := authz.id
    type := "http-01"
    token := token
    status := .valid
    validatedAt := some now })
  pure ()

/-- The loop of `NewOrder` over the identifiers of the order it created. -/
def authorizeIdentifiers (orderID : Nat) (now : Time) :
    List AcmeIdentifier → Handler Problem Unit
  | [] => pure ()
  | id :: rest => do
    authorizeIdentifier orderID now id
    authorizeIdentifiers orderID now rest

/-- The `%v` of the requested identifiers. -/
def identifiersText (ids : List AcmeIdentifier) : String :=
  Go.listText (ids.map fun id => "\x7b" ++ id.type ++ " " ++ id.value ++ "\x7d")

/-- `NewOrder` handles POST /new-order. -/
def Service.newOrder [Go.Runtime] (s : Service) (body : Body) :
    Handler Problem (AcmeOrder × OrderObject) := do
  let ar ← authenticate body s.newOrderURL
  let req ← .ofExcept (orMalformed (ar.jws.payload.decode {} ar.jws.payload.newOrder))
  Act.failIf (req.identifiers = [])
    (malformed "an order must request at least one identifier")
  let cred ← s.activeCred ar.account
  let idents ← .ofExcept (checkIdentifiers cred req.identifiers)
  let t ← now
  let notAfter ← .ofExcept (s.requestedNotAfter req cred t)
  let order ← orInternal (createAcmeOrder {
    accountID := ar.account.id
    status := .ready
    identifiers := idents
    expiresAt := t + orderTTL
    notAfter := notAfter })
  authorizeIdentifiers order.id t idents
  let obj ← orInternal (s.orderObjectFor order)
  s.audit ("acme:account:" ++ toString ar.account.id) "acme.order.create" (toString order.id)
    ("identifiers=" ++ identifiersText req.identifiers ++ " eab=" ++ cred.name)
  pure (order, obj)

/-- The order of a request, if it belongs to the account that signed it. -/
def ownOrder (ar : AuthedRequest) (orderID : Nat) : Handler Problem AcmeOrder := do
  let order ← (getAcmeOrder orderID).mapError fun _ => notFound "no such order"
  Act.failIf (order.accountID ≠ ar.account.id)
    (unauthorized "this order does not belong to your account")
  pure order

/-- `GetOrder` handles a POST-as-GET to an order URL. -/
def Service.getOrder (s : Service) (orderID : Nat) (body : Body) :
    Handler Problem OrderObject := do
  let ar ← authenticate body (s.orderURL orderID)
  let order ← ownOrder ar orderID
  orInternal (s.orderObjectFor order)

/-! ## Finalization -/

/-- Mark an order invalid with the problem the request is refused with. -/
def failOrder {α : Type} (orderID : Nat) (p : Problem) : Handler Problem α := do
  let _ ← (setAcmeOrderError orderID p).attempt
  throw p

/-- The check `finalize` makes of an order before it looks at the CSR: it must be ready. -/
def checkReady (o : AcmeOrder) : Except Problem Unit :=
  if o.status ≠ .ready then
    .error (orderNotReady ("order is " ++ Go.quote o.status.text ++ ", not ready"))
  else .ok ()

/-- The problem of a request that comes after the order expired. -/
def expiredProblem (o : AcmeOrder) : Problem :=
  orderNotReady ("order expired at " ++ o.expiresAt.rfc3339 ++ "; place a new one")

/-- The CSR that a finalize request carries. -/
def decodeCSR (j : ParsedJWS) : Except Problem CSR := do
  let req ← orMalformed (j.payload.decode {} j.payload.finalize)
  match req.csr with
  | .error e => .error (badCSR ("csr is not valid base64url: " ++ e))
  | .ok text => (parseCSR text).mapError fun e => badCSR e.text

/-- The keys of a string set, each once. -/
def sortedKeys (names : List String) : List String :=
  names.dedup.insertionSort (· ≤ ·)

/-- `sameStringSet`, of the sets that two lists of names stand for. -/
def sameStringSet (a b : List String) : Bool :=
  a.dedup.length == b.dedup.length && a.dedup.all (b.dedup.contains ·)

/-- The names an order authorizes. -/
def AcmeOrder.names (o : AcmeOrder) : List String := o.identifiers.map (·.value)

section

variable [Go.Runtime]

/-- What `finalize` checks of a CSR against its order: DNS names only, exactly the authorized ones,
and a common name that is one of them. The result is the common name to issue with. -/
def checkCSR (o : AcmeOrder) (csr : CSR) : Except Problem String :=
  if csr.sans.ips ≠ [] ∨ csr.sans.emails ≠ [] ∨ csr.sans.uris ≠ [] then
    .error (badCSR ("the CSR may only request DNS names; it also requests " ++
      nonDNSSummary csr))
  else
    let want := AcmeOrder.names o
    let got := csr.sans.dns.map Go.toLower
    if sameStringSet want got = false then
      .error (badCSR ("the CSR's names " ++ Go.listText (sortedKeys got) ++
        " do not match the order's authorized identifiers " ++ Go.listText (sortedKeys want)))
    else
      let cn := Go.toLower (Go.trimSpace csr.subject.commonName)
      if cn ≠ "" ∧ cn ∉ want then
        .error (badCSR ("the CSR's common name " ++ Go.quote csr.subject.commonName ++
          " is not one of the order's authorized identifiers " ++
          Go.listText (sortedKeys want)))
      else if cn = "" then .ok (want.headD "")
      else .ok cn

/-- The validity of the certificate: the credential's, or the whole days up to the requested
end. -/
def issueDays (o : AcmeOrder) (cred : EABCred) (now : Time) : Int :=
  match o.notAfter with
  | none => cred.days
  | some t => max 1 (-(-(t.sub now) / 86400))

/-- The certificate request of a finalized order. -/
def issueInput (cred : EABCred) (csr : CSR) (cn : String) (days : Int) : Ca.IssueInput where
  mode := .csr
  csrPEM := .csr csr
  profile := cred.profile
  days := days
  actor := "acme:" ++ cred.name
  caRef := (cred.caID.map toString).getD ""
  subject := { commonName := cn }

/-- The last part of `Finalize`, for the one request that claimed the order: issue, link the
certificate, and answer with the order as it then is. -/
def Service.issueForOrder (s : Service) (order : AcmeOrder) (cred : EABCred) (csr : CSR)
    (cn : String) : Handler Problem OrderObject := do
  let t ← now
  let res ← (s.caSvc.issue (issueInput cred csr cn (issueDays order cred t))).attempt
  match res with
  | .error e => failOrder order.id (serverInternal ("issuance failed: " ++ e.text))
  | .ok res =>
    orInternal (setAcmeOrderCertificate order.id res.certificate.id)
    s.audit ("acme:" ++ cred.name) "acme.order.finalize" (toString order.id)
      ("serial=" ++ res.certificate.serialHex ++ " cn=" ++ res.certificate.commonName)
    let updated ← orInternal (getAcmeOrder order.id)
    orInternal (s.orderObjectFor updated)

/-- The claim of `Finalize`, after every check that can reject the request. -/
def Service.claimAndIssue (s : Service) (order : AcmeOrder) (cred : EABCred) (csr : CSR)
    (cn : String) : Handler Problem OrderObject := do
  let claimed ← orInternal (claimAcmeOrderForFinalize order.id)
  Act.failIf (claimed = false)
    (orderNotReady "this order is already being finalized, or has been")
  s.issueForOrder order cred csr cn

/-- `Finalize` of an order that its account may finalize: refuse it when it has expired or its CSR
does not fit, otherwise claim it. -/
def Service.finalizeOrder (s : Service) (ar : AuthedRequest) (order : AcmeOrder) :
    Handler Problem OrderObject := do
  .ofExcept (checkReady order)
  let t ← now
  if t.after order.expiresAt then failOrder order.id (expiredProblem order)
  else
    let csr ← .ofExcept (decodeCSR ar.jws)
    match checkCSR order csr with
    | .error p => failOrder order.id p
    | .ok cn =>
      let cred ← s.activeCred ar.account
      s.claimAndIssue order cred csr cn

/-- `Finalize` handles POST /order/{id}/finalize. -/
def Service.finalize (s : Service) (orderID : Nat) (body : Body) :
    Handler Problem OrderObject := do
  let ar ← authenticate body (s.finalizeURL orderID)
  let order ← ownOrder ar orderID
  s.finalizeOrder ar order

end

/-! ## Authorizations and challenges -/

/-- `ChallengeObject`. -/
structure ChallengeObject where
  type : String
  url : String
  status : String
  validated : String
  token : String

/-- `AuthorizationObject`. -/
structure AuthorizationObject where
  identifier : AcmeIdentifier
  status : String
  expires : String
  challenges : List ChallengeObject
  wildcard : Bool

/-- The wire representation of a challenge. -/
def Service.challengeObject (s : Service) (c : AcmeChallenge) : ChallengeObject :=
  ⟨c.type, s.challengeURL c.id, c.status.text, (c.validatedAt.map Time.rfc3339).getD "", c.token⟩

/-- `authzObject`. -/
def Service.authzObject (s : Service) (a : AcmeAuthorization) (challenges : List AcmeChallenge) :
    AuthorizationObject :=
  ⟨⟨a.identifierType, a.identifierValue⟩, a.status.text, a.expiresAt.rfc3339,
    challenges.map s.challengeObject, a.wildcard⟩

/-- `GetAuthorization` handles a POST-as-GET to an authorization URL. -/
def Service.getAuthorization (s : Service) (authzID : Nat) (body : Body) :
    Handler Problem AuthorizationObject := do
  let missing := notFound "no such authorization"
  let authz ← (getAcmeAuthorization authzID).mapError fun _ => missing
  let order ← (getAcmeOrder authz.orderID).mapError fun _ => missing
  let ar ← authenticate body (s.authzURL authzID)
  Act.failIf (order.accountID ≠ ar.account.id)
    (unauthorized "this authorization does not belong to your account")
  let challenges ← orInternal (listAcmeChallengesByAuthorization authz.id)
  pure (s.authzObject authz challenges)

/-- `GetChallenge` handles a POST to a challenge URL. -/
def Service.getChallenge (s : Service) (challengeID : Nat) (body : Body) :
    Handler Problem ChallengeObject := do
  let missing := notFound "no such challenge"
  let c ← (getAcmeChallenge challengeID).mapError fun _ => missing
  let authz ← (getAcmeAuthorization c.authorizationID).mapError fun _ => missing
  let order ← (getAcmeOrder authz.orderID).mapError fun _ => missing
  let ar ← authenticate body (s.challengeURL challengeID)
  Act.failIf (order.accountID ≠ ar.account.id)
    (unauthorized "this challenge does not belong to your account")
  pure (s.challengeObject c)

end Goca.Acme
