import Goca.Store.Acme

/-!
# Signed requests

An ACME request body is a JWS. With signatures ideal, a body is what its parser returns: the
protected header, the key that made the signature, and the payload as each endpoint decodes it. The
payload of a request is used only after the signature has been verified.
-/

set_option autoImplicit false

namespace Goca.Acme

open Goca.Pki (PublicKey CsrText X509)
open Goca.Store (AcmeIdentifier Handler getEABCredByKeyID EABCred)

/-! ## Payloads -/

/-- The external account binding of a new-account request, as its own JWS. -/
structure EabJWS where
  signatures : Nat
  keyID : String
  hasJWK : Bool
  nonce : String
  /-- The `url` header, where it is a text. -/
  url : Option String
  /-- The identity of the HMAC key that made the tag. -/
  macKey : Nat
  /-- The bound key, or why the payload is no JWK. -/
  payload : Except String PublicKey

/-- An external account binding member: absent, no JWS, or a JWS. -/
inductive EabText
  | absent
  | malformed (text : String)
  | jws (j : EabJWS)

/-- `NewAccountRequest`. -/
structure NewAccountRequest where
  contact : List String := []
  onlyReturnExisting : Bool := false
  externalAccountBinding : EabText := .absent

/-- `UpdateAccountRequest`: a missing contact list is not an empty one. -/
structure UpdateAccountRequest where
  contact : Option (List String) := none
  status : String := ""

/-- `NewOrderRequest`. -/
structure NewOrderRequest where
  identifiers : List AcmeIdentifier := []
  notBefore : String := ""
  notAfter : String := ""

/-- `FinalizeRequest`: the CSR, or why it is no base64url. -/
structure FinalizeRequest where
  csr : Except String CsrText := .ok .malformed

/-- `RevokeCertRequest`: the certificate, or why it is no base64url or does not parse. -/
structure RevokeCertRequest where
  certificate : Except String (Except String X509) := .ok (.error "x509: malformed certificate")
  reason : Option Int := none

/-- A payload: empty, or what each request type decodes it to. -/
structure Payload where
  empty : Bool
  newAccount : Except String NewAccountRequest
  updateAccount : Except String UpdateAccountRequest
  newOrder : Except String NewOrderRequest
  finalize : Except String FinalizeRequest
  revokeCert : Except String RevokeCertRequest

/-- `DecodePayload`: an empty payload decodes into the zero value. -/
def Payload.decode {α : Type} (p : Payload) (zero : α) (parsed : Except String α) :
    Except Go.Error α :=
  if p.empty then .ok zero
  else parsed.mapError fun e => .wrap "decode JWS payload: " (.driver e) ""

/-! ## Requests -/

/-- The parts of a JWS that `jose.ParseSigned` accepts. -/
structure JWS where
  signatures : Nat
  /-- Whether an unprotected header carries anything. -/
  unprotected : Bool
  keyID : String
  jwk : Option PublicKey
  nonce : String
  /-- The `url` header, where it is a text. -/
  url : Option String
  /-- The key that made the signature. -/
  signer : PublicKey
  payload : Payload

/-- A request body: what `jose.ParseSigned` makes of it. -/
abbrev Body := Except String JWS

/-- `ParsedJWS`: a request whose signature has not been verified yet. -/
structure ParsedJWS where
  keyID : String
  jwk : Option PublicKey
  nonce : String
  url : String
  signer : PublicKey
  payload : Payload

/-- `ParseJWS` enforces one signature, no unprotected header, exactly one of jwk and kid, and a
url. -/
def parseJWS (body : Body) : Except Go.Error ParsedJWS :=
  match body with
  | .error e => .error (.wrap "parse JWS: " (.driver e) "")
  | .ok j =>
    if j.signatures ≠ 1 then .error (.new "a JWS must carry exactly one signature")
    else if j.unprotected then .error (.new "unprotected JWS headers are not permitted")
    else if j.keyID ≠ "" ∧ j.jwk.isSome = true then
      .error (.new "a JWS must not carry both jwk and kid")
    else if j.keyID = "" ∧ j.jwk.isNone = true then .error (.new "a JWS must carry jwk or kid")
    else if j.url.getD "" = "" then .error (.new "a JWS must carry a \"url\" protected header")
    else .ok ⟨j.keyID, j.jwk, j.nonce, j.url.getD "", j.signer, j.payload⟩

/-- `Verify` checks the signature against a key. -/
def ParsedJWS.verify (j : ParsedJWS) (key : PublicKey) : Except Go.Error Unit :=
  if j.signer = key then .ok ()
  else .error (.wrap "JWS signature verification failed: "
    (.driver "go-jose/go-jose: error in cryptographic primitive") "")

/-- `IsPostAsGet` reports whether the request only fetches a resource. -/
def ParsedJWS.isPostAsGet (j : ParsedJWS) : Bool := j.payload.empty

/-- The text of a header that may be missing. -/
def headerText (h : Option String) : String := h.getD ""

/-- The checks of `VerifyEAB` before the key is looked up: the key id of the binding, or the error
with the key id that was presented. -/
def eabHeader (eab : EabText) (outerURL : String) : Except (String × Go.Error) EabJWS :=
  match eab with
  | .absent => .error ("", .new "no externalAccountBinding was supplied")
  | .malformed e => .error ("", .wrap "parse externalAccountBinding: " (.driver e) "")
  | .jws j =>
    if j.signatures ≠ 1 then
      .error ("", .new "externalAccountBinding must carry exactly one signature")
    else if j.keyID = "" then .error ("", .new "externalAccountBinding is missing kid")
    else if j.hasJWK then
      .error (j.keyID, .new "externalAccountBinding must not carry a jwk header")
    else if j.nonce ≠ "" then
      .error (j.keyID, .new "externalAccountBinding must not carry a nonce")
    else if headerText j.url ≠ outerURL then
      .error (j.keyID, .new "externalAccountBinding url does not match the request url")
    else .ok j

/-- The checks of `VerifyEAB` under the credential's key: the tag is its own, and the payload is
the account's key. -/
def eabBinding (j : EabJWS) (accountJWK : PublicKey) (cred : EABCred) : Except Go.Error Unit :=
  if j.macKey ≠ cred.hmacKey then
    .error (.wrap "externalAccountBinding signature is invalid: "
      (.driver "go-jose/go-jose: error in cryptographic primitive") "")
  else match j.payload with
    | .error e => .error (.wrap "externalAccountBinding payload is not a JWK: " (.driver e) "")
    | .ok bound =>
      if bound ≠ accountJWK then
        .error (.new "externalAccountBinding does not bind the account's own key")
      else .ok ()

/-- `VerifyEAB`, with the lookup it is given: the credential and its key id, or the error with the
key id that was presented. -/
def verifyEAB (eab : EabText) (outerURL : String) (accountJWK : PublicKey) :
    Handler (String × Go.Error) (String × EABCred) := do
  let j ← .ofExcept (eabHeader eab outerURL)
  let found ← (getEABCredByKeyID j.keyID).attempt
  match found with
  | .error _ => throw (j.keyID, .new ("unknown external account binding key id " ++
      Go.quote j.keyID))
  | .ok cred =>
    .ofExcept ((eabBinding j accountJWK cred).mapError fun e => (j.keyID, e))
    pure (j.keyID, cred)

end Goca.Acme
