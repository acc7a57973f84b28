import Goca.Go.Net
import Goca.Go.Path
import Goca.Acme.Jws

/-!
# Identifier, domain and contact policy

Authorizations are granted without any domain-control check, so the syntax of an identifier and the
allowed-domain patterns of a credential are all that stands between an account and a certificate.
-/

set_option autoImplicit false

namespace Goca.Acme

open Goca.Pki (CSR ipText)

/-! ## Identifiers -/

/-- `validLabel`: letters, digits and hyphens, at most 63, no hyphen at either end. -/
def validLabel (l : String) : Except Go.Error Unit :=
  if l = "" then .error (.new "has an empty label")
  else if 63 < l.utf8ByteSize then
    .error (.new ("has a label longer than 63 characters (" ++ Go.quote l ++ ")"))
  else if l.toList.head? = some '-' ∨ l.toList.getLast? = some '-' then
    .error (.new ("has a label that starts or ends with a hyphen (" ++ Go.quote l ++ ")"))
  else if l.toList.all (fun r => ('a' ≤ r && r ≤ 'z') || ('0' ≤ r && r ≤ '9') || r == '-') then
    .ok ()
  else .error (.new ("has a label with a character outside a-z, 0-9 and '-' (" ++ Go.quote l ++
    ")"))

/-- The labels of a name, each checked in turn. -/
def validLabels : List String → Except Go.Error Unit
  | [] => .ok ()
  | l :: rest => do
    validLabel l
    validLabels rest

/-- `validDNSIdentifier`: a hostname, with at most one wildcard as its whole leftmost label. -/
def validDNSIdentifier (v : String) : Except Go.Error Unit :=
  if 253 < v.utf8ByteSize then .error (.new "is longer than 253 characters")
  else if (Go.parseIP v).isSome then
    .error (.new "is an IP address; only \"dns\" identifiers are supported")
  else
    let name := (Go.cutPrefix v "*.").getD v
    let wildcard := (Go.cutPrefix v "*.").isSome
    if Go.contains name "*" then
      .error (.new "may only use \"*\" as the entire leftmost label")
    else
      let labels := Go.split name '.'
      if wildcard = true ∧ labels.length < 2 then .error (.new ("is a wildcard over a " ++
        "single-label name, which would cover a whole top-level domain"))
      else validLabels labels

/-! ## Domains -/

/-- `domainAllowed`: no patterns means unrestricted, otherwise one of them must match. -/
def domainAllowed [Go.Runtime] (patterns : List String) (identifier : String) : Bool :=
  let name := Go.toLower (Go.trimSuffix identifier ".")
  patterns.isEmpty || patterns.any fun p =>
    let pat := Go.toLower (Go.trimSpace p)
    pat != "" && (Go.pathMatch pat name).toOption == some true

/-- The loop of `normalizeDomainPatterns`; `out` is what was kept so far, so also what was seen. -/
def normalizeDomainPatternsFrom [Go.Runtime] (out : List String) :
    List String → Except Go.Error (List String)
  | [] => .ok out
  | raw :: rest =>
    let p := Go.toLower (Go.trimSuffix (Go.trimSpace raw) ".")
    if p = "" ∨ p ∈ out then normalizeDomainPatternsFrom out rest
    else match Go.pathMatch p "" with
      | .error .badPattern => .error (.wrap ("allowed domain " ++ Go.quote raw ++
          " is not a valid pattern: ") (.new "syntax error in pattern") "")
      | .ok _ =>
        if Go.trim p "*?." = "" then .error (.new ("allowed domain " ++ Go.quote raw ++
          " matches every hostname; to allow any domain, say so explicitly instead"))
        else normalizeDomainPatternsFrom (out ++ [p]) rest

/-- `normalizeDomainPatterns` trims, lower-cases and de-duplicates the patterns of a credential,
and rejects those that are malformed or match everything. -/
def normalizeDomainPatterns [Go.Runtime] (patterns : List String) :
    Except Go.Error (List String) := normalizeDomainPatternsFrom [] patterns

/-! ## Requests and contacts -/

/-- `nonDNSSummary` describes the non-DNS names a CSR asked for. -/
def nonDNSSummary (csr : CSR) : String :=
  Go.join (csr.sans.ips.map (fun ip => "IP:" ++ ipText ip) ++
    csr.sans.emails.map ("email:" ++ ·) ++ csr.sans.uris.map (fun u => "URI:" ++ u.text)) ", "

/-- One contact: a mailto URL of exactly one address without header fields. -/
def validContact [Go.Runtime] (c : String) : Except Problem Unit :=
  let notURL : Problem := invalidContact ("contact " ++ Go.quote c ++ " is not a URL")
  match Go.Runtime.urlParse c with
  | .error _ => .error notURL
  | .ok u =>
    if u.scheme = "" then .error notURL
    else if Go.equalFoldASCII u.scheme "mailto" = false then
      .error (unsupportedContact ("contact " ++ Go.quote c ++
        ": only mailto: contacts are supported"))
    else if u.rawQuery ≠ "" ∨ Go.contains u.opaquePart "," = true ∨
        Go.count u.opaquePart '@' ≠ 1 ∨ Go.hasPrefix u.opaquePart "@" = true ∨
        Go.hasSuffix u.opaquePart "@" = true then
      .error (invalidContact ("contact " ++ Go.quote c ++
        " must be a single mailto: address with no header fields"))
    else .ok ()

/-- `validContacts` checks account contact URLs. -/
def validContacts [Go.Runtime] : List String → Except Problem Unit
  | [] => .ok ()
  | c :: rest => do
    validContact c
    validContacts rest

end Goca.Acme
