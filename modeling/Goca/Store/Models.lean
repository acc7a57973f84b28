import Goca.Lib.Table
import Goca.Pki.Crl
import Goca.Acme.Problem

/-!
# Rows

The records of the store, with the columns that the modelled functions read or write. Statuses are
enumerations, a nullable column is an `Option`, an encrypted key column is the key it decrypts to,
and a JSON column is the value it encodes.
-/

set_option autoImplicit false

namespace Goca.Store

open Go (Time)
open Goca.Pki (CertPEM Fingerprint PrivateKey PublicKey)

/-! ## Certificate authorities -/

/-- The statuses of a certificate authority. -/
inductive CAStatus
  | active | disabled | pending
  deriving Repr, DecidableEq

def CAStatus.text : CAStatus → String
  | .active => "active"
  | .disabled => "disabled"
  | .pending => "pending"

/-- A certificate authority managed by this server. -/
structure CA where
  id : Nat := 0
  name : String
  slug : String
  subject : String
  serialHex : String := ""
  keyType : String
  certPEM : CertPEM := none
  keyEnc : Option PrivateKey := none
  isRoot : Bool := false
  parentID : Option Nat := none
  pathLen : Int := 0
  notBefore : Time := Time.zero
  notAfter : Time := Time.zero
  status : CAStatus
  crlNumber : Nat := 0
  fingerprint : Fingerprint := none
  isDefault : Bool := false
  lastCRLAt : Option Time := none
  isExternal : Bool := false
  subjectKeyID : String := ""
  authorityKeyID : String := ""
  deriving Repr, DecidableEq

instance : Sql.Keyed CA := ⟨CA.id⟩

/-- `Expired` reports whether the CA certificate is past its validity window. -/
def CA.expired (c : CA) (now : Time) : Bool := now.after c.notAfter

/-- `HasKey` reports whether goca holds this CA's private key. -/
def CA.hasKey (c : CA) : Bool := c.keyEnc.isSome

/-- `Pending` reports whether the CA is waiting for an externally signed certificate. -/
def CA.pending (c : CA) : Bool := c.status == .pending

/-- Whether the CA can sign something: it holds a key and is active. -/
def CA.issuing (c : CA) : Bool := c.hasKey && c.status == .active

/-! ## Certificates -/

/-- The stored statuses of a certificate. Expiry is not stored. -/
inductive CertStatus
  | active | revoked
  deriving Repr, DecidableEq

/-- A certificate issued by one of the CAs. -/
structure Certificate where
  id : Nat := 0
  caID : Nat
  serialHex : String
  commonName : String
  subject : String
  sans : List String
  profile : String
  keyType : String
  certPEM : CertPEM
  keyEnc : Option PrivateKey
  fingerprint : Fingerprint
  notBefore : Time
  notAfter : Time
  status : CertStatus := .active
  revokedAt : Option Time := none
  revokeCode : Int := 0
  requestedBy : String
  note : String
  createdAt : Time := Time.zero
  renewedFrom : Option Nat := none
  deriving Repr, DecidableEq

instance : Sql.Keyed Certificate := ⟨Certificate.id⟩

/-- `OnHold` reports whether the certificate is revoked reversibly. -/
def Certificate.onHold (c : Certificate) : Bool := c.status == .revoked && c.revokeCode == 6

/-- Whether a private key is stored for the certificate. -/
def Certificate.hasKey (c : Certificate) : Bool := c.keyEnc.isSome

/-- A retired subordinate CA listed on an issuer's CRL. -/
structure CARevocation where
  id : Nat
  caID : Nat
  serialHex : String
  revokedAt : Time
  reason : Int
  deriving Repr, DecidableEq

instance : Sql.Keyed CARevocation := ⟨CARevocation.id⟩

/-- A certificate search. A zero `caID` and an empty text ask for nothing. -/
structure CertFilter where
  query : String := ""
  caID : Nat := 0
  profile : String := ""
  requestedBy : String := ""
  status : String := ""
  expiringIn : Int := 0
  sortBy : String := ""
  sortDesc : Bool := false
  limit : Int := 0
  offset : Int := 0
  deriving Repr, DecidableEq

/-! ## ACME -/

/-- The statuses of ACME objects. -/
inductive AcmeStatus
  | pending | processing | valid | invalid | ready | deactivated
  deriving Repr, DecidableEq

def AcmeStatus.text : AcmeStatus → String
  | .pending => "pending"
  | .processing => "processing"
  | .valid => "valid"
  | .invalid => "invalid"
  | .ready => "ready"
  | .deactivated => "deactivated"

/-- An external account binding credential. -/
structure EABCred where
  id : Nat
  keyID : String
  /-- The identity of the HMAC key that the encrypted column holds. -/
  hmacKey : Nat
  name : String
  caID : Option Nat
  profile : String
  days : Int
  allowedDomains : List String
  maxAccounts : Int
  accountCount : Int
  disabled : Bool
  expiresAt : Option Time
  lastUsedAt : Option Time
  deriving Repr, DecidableEq

instance : Sql.Keyed EABCred := ⟨EABCred.id⟩

/-- `Usable` reports whether this credential may still bootstrap new accounts. -/
def EABCred.usable (e : EABCred) (now : Time) : Bool :=
  !e.disabled && !e.expiresAt.any (fun t => now.after t) &&
    !(decide (0 < e.maxAccounts) && decide (e.maxAccounts ≤ e.accountCount))

/-- A registered ACME account. The thumbprint of a key is ideal: the key itself. -/
structure AcmeAccount where
  id : Nat := 0
  eabID : Nat
  jwk : PublicKey
  jwkThumbprint : PublicKey
  contact : List String
  status : AcmeStatus
  lastUsedAt : Option Time := none
  deriving Repr, DecidableEq

instance : Sql.Keyed AcmeAccount := ⟨AcmeAccount.id⟩

/-- One name an order requests a certificate for. -/
structure AcmeIdentifier where
  type : String
  value : String
  deriving Repr, DecidableEq

/-- One certificate request on its way through the ACME state machine. -/
structure AcmeOrder where
  id : Nat := 0
  accountID : Nat
  status : AcmeStatus
  identifiers : List AcmeIdentifier
  certificateID : Option Nat := none
  error : Option Acme.Problem := none
  expiresAt : Time
  notAfter : Option Time
  deriving Repr, DecidableEq

instance : Sql.Keyed AcmeOrder := ⟨AcmeOrder.id⟩

/-- One identifier's authorization within an order. -/
structure AcmeAuthorization where
  id : Nat := 0
  orderID : Nat
  identifierType : String
  identifierValue : String
  wildcard : Bool
  status : AcmeStatus
  expiresAt : Time
  deriving Repr, DecidableEq

instance : Sql.Keyed AcmeAuthorization := ⟨AcmeAuthorization.id⟩

/-- The pre-satisfied challenge of an authorization. -/
structure AcmeChallenge where
  id : Nat := 0
  authorizationID : Nat
  type : String
  token : String
  status : AcmeStatus
  validatedAt : Option Time
  deriving Repr, DecidableEq

instance : Sql.Keyed AcmeChallenge := ⟨AcmeChallenge.id⟩

/-- A replay nonce that has been handed out and not been redeemed. -/
structure AcmeNonce where
  nonce : String
  expiresAt : Time
  deriving Repr, DecidableEq

end Goca.Store
