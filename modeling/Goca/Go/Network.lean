import Goca.Go.Decimal
import Goca.Go.Net

/-!
# Package net: hosts, ports and networks

`net.SplitHostPort`, `net.ParseCIDR`, `IPNet.Contains` and `IP.String`. A network is kept in the
16-byte form of its addresses, so the length of a mask over the 4-byte form counts 96 bits more.
-/

set_option autoImplicit false

namespace Go

/-- `net.SplitHostPort`: the host and the port of `host:port` or `[host]:port`, unless the text is
of neither form. -/
def splitHostPort (hostport : String) : Option (String × String) :=
  let s := hostport.toList
  let port := (s.reverse.takeWhile (· != ':')).reverse
  -- Where the last colon is.
  let i := s.length - port.length - 1
  if s.contains ':' = false then none
  else if s.head? = some '[' then
    let inner := s.takeWhile (· != ']')
    let host := inner.drop 1
    -- The first closing bracket has to stand just before the last colon.
    if inner.length + 1 = i ∧ host.contains '[' = false ∧ port.contains '[' = false ∧
        port.contains ']' = false then some (.ofList host, .ofList port)
    else none
  else
    let host := s.take i
    if host.contains ':' = false ∧ s.contains '[' = false ∧ s.contains ']' = false then
      some (.ofList host, .ofList port)
    else none

example : splitHostPort "[fe80::1]:443" = some ("fe80::1", "443") ∧
    splitHostPort "10.0.0.5" = none ∧ splitHostPort "fe80::1" = none := by decide +kernel

/-- A `net.IPNet`: its number, and how many leading bits its mask has. -/
structure IPNet where
  ip : IP
  ones : Nat
  deriving Repr, DecidableEq

/-- `IP.To4`: whether an address is one of IPv4. -/
def isIPv4 (ip : IP) : Bool := ip.take 6 == [0, 0, 0, 0, 0, 65535]

/-- `IP.Mask`: the leading bits of an address. -/
def maskIP (ones : Nat) (ip : IP) : IP :=
  ip.mapIdx fun i group =>
    let dropped := 16 - min 16 (ones - 16 * i)
    (group >>> dropped) <<< dropped

/-- `IPNet.Contains`. -/
def IPNet.contains (n : IPNet) (ip : IP) : Bool :=
  isIPv4 ip == isIPv4 n.ip && maskIP n.ones ip == maskIP n.ones n.ip

/-- The bits of an address as it is written: 32 where a dot comes before any colon. -/
def bitLen (addr : List Char) : Nat :=
  if addr.find? (fun c => c == '.' || c == ':') = some '.' then 32 else 128

/-- The length of a mask, in decimal digits only. -/
def prefixLength (mask : List Char) : Option Nat :=
  if mask ≠ [] ∧ mask.all Char.isDigit = true then some (digitsValue mask) else none

/-- `net.ParseCIDR`: the network of `address/length`. -/
def parseCIDR (s : String) : Option IPNet :=
  let addr := s.toList.takeWhile (· != '/')
  if s.toList.contains '/' = false then none
  else do
    let ip ← parseIP (.ofList addr)
    let n ← prefixLength (s.toList.drop (addr.length + 1))
    let ones := 128 - bitLen addr + n
    if n ≤ bitLen addr then some ⟨maskIP ones ip, ones⟩ else none

example : ((parseCIDR "10.0.0.0/8").bind fun n => (parseIP "10.1.2.3").map n.contains) =
    some true := by decide +kernel

/-! ## Addresses as texts -/

/-- The four octets of an address of IPv4. -/
def octets (ip : IP) : List Nat :=
  (ip.drop 6).flatMap fun group => [group / 256, group % 256]

/-- How many zero groups stand from some group on. -/
def zeroRun (ip : IP) (i : Nat) : Nat := ((ip.drop i).takeWhile (· == 0)).length

/-- The first of the longest runs of zero groups, if it has two of them. -/
def longestRun (ip : IP) : Option Nat :=
  (List.range ip.length).foldl (fun best i =>
    if max 1 (best.elim 0 (zeroRun ip)) < zeroRun ip i then some i else best) none

/-- Groups in hexadecimal digits. -/
def groupsText (groups : List Nat) : String := join (groups.map fun g => .ofList (hexDigits g)) ":"

/-- `IP.String`. -/
def ipText (ip : IP) : String :=
  if isIPv4 ip = true then join ((octets ip).map toString) "."
  else match longestRun ip with
    | none => groupsText ip
    | some i => groupsText (ip.take i) ++ "::" ++ groupsText (ip.drop (i + zeroRun ip i))

example : (parseIP "fe80:0:0:1::2").map ipText = some "fe80:0:0:1::2" ∧
    (parseIP "::").map ipText = some "::" ∧
    (parseIP "127.0.0.1").map ipText = some "127.0.0.1" := by decide +kernel

end Go
