import Goca.Go.Network

/-!
# Package web: the address of a client

`clientIP`, which audit records and the sign-in throttle name a client by, and the networks of the
proxies that it trusts.
-/

set_option autoImplicit false

namespace Goca.Web

open Go (IPNet)

/-! ## Trusted proxies -/

/-- `parseCIDROrIP` parses a CIDR or a bare IP, treated as /32 or /128, into a network. -/
def parseCIDROrIP (s : String) : Option IPNet :=
  match Go.parseCIDR s with
  | some n => some n
  | none =>
    let trimmed := Go.trimSpace s
    match Go.parseIP trimmed with
    | some ip => Go.parseCIDR (trimmed ++ "/" ++ if Go.isIPv4 ip then "32" else "128")
    | none => none

/-- `parseTrustedProxies`: an entry that is neither is skipped. -/
def parseTrustedProxies (entries : List String) : List IPNet := entries.filterMap parseCIDROrIP

/-- An address without its port, if it has one. -/
def hostOf (addr : String) : String := ((Go.splitHostPort addr).map Prod.fst).getD addr

/-- `isTrustedProxy` reports whether addr (an IP literal, possibly with a port) falls inside one of
the configured trusted proxy networks. -/
def isTrustedProxy (trustedProxies : List IPNet) (addr : String) : Bool :=
  match Go.parseIP (hostOf addr) with
  | none => false
  | some ip => trustedProxies.any (·.contains ip)

/-! ## The address -/

/-- What `clientIP` reads of a request: its peer, and the `X-Forwarded-For` lines of its header. -/
structure Arrival where
  remoteAddr : String
  forwardedFor : List String
  deriving Repr, DecidableEq

/-- `Header.Get`: the first line of a name, or nothing. -/
def headerGet (lines : List String) : String := lines.headD ""

/-- The walk of `clientIP` over the entries, the rightmost first. -/
def walk (trustedProxies : List IPNet) : List String → Option String
  | [] => none
  | part :: parts =>
    let addr := Go.trimSpace part
    if addr = "" then walk trustedProxies parts
    else if isTrustedProxy trustedProxies addr = false then some addr
    else walk trustedProxies parts

/-- `clientIP` determines the real client address for audit records and per-IP login throttling. -/
def clientIP (trustedProxies : List IPNet) (r : Arrival) : String :=
  let peer := hostOf r.remoteAddr
  if trustedProxies.isEmpty = true ∨ isTrustedProxy trustedProxies peer = false then peer
  else
    let parts := Go.split (headerGet r.forwardedFor) ','
    -- Every entry is a trusted proxy: the direct peer rather than an address it supplied.
    (walk trustedProxies parts.reverse).getD peer

end Goca.Web
