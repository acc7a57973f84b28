import Goca.Go.Strings

/-!
# Package net: IP addresses

`net.ParseIP`, read off the address grammar of `net/netip`: dotted decimal without leading zeros,
and the eight groups of IPv6 with at most one `::` and an optional dotted tail. A zone is refused.
-/

set_option autoImplicit false

namespace Go

/-- A `net.IP` in its 16-byte form, as eight 16-bit groups. -/
abbrev IP := List Nat

/-- One decimal octet: at most 255 and without a leading zero. -/
def parseOctet (s : List Char) : Option Nat :=
  match s with
  | [] => none
  | '0' :: _ :: _ => none
  | _ =>
    if s.all Char.isDigit then
      let v := s.foldl (fun n c => n * 10 + (c.toNat - '0'.toNat)) 0
      if s.length ≤ 3 ∧ v ≤ 255 then some v else none
    else none

/-- `parseIPv4Fields`: the two low groups that four octets spell. -/
def parseIPv4Fields (s : List Char) : Option (List Nat) :=
  match (s.splitOn '.').map parseOctet with
  | [some a, some b, some c, some d] => some [a * 256 + b, c * 256 + d]
  | _ => none

/-- The leading hexadecimal digits of a text and what follows them. -/
def hexGroup (s : List Char) : List Nat × List Char :=
  let ds := s.takeWhile fun c => (hexValue c).isSome
  (ds.filterMap hexValue, s.drop ds.length)

/-- The loop of `parseIPv6` from its `i`-th group on: the groups already read, and where the
ellipsis stood. -/
def parseIPv6Loop : Nat → List Char → List Nat → Option Nat → Option (List Nat × Option Nat)
  | 0, s, ip, ellipsis => if s.isEmpty then some (ip, ellipsis) else none
  | fuel + 1, s, ip, ellipsis =>
    match hexGroup s with
    | ([], _) => none
    | (ds, rest) =>
      if 4 < ds.length then none else
      let acc := ds.foldl (fun n d => n * 16 + d) 0
      match rest with
      | [] => some (ip ++ [acc], ellipsis)
      | '.' :: _ =>
        if (ellipsis.isNone && ip.length != 6) || 8 < ip.length + 2 then none
        else (parseIPv4Fields s).map fun v4 => (ip ++ v4, ellipsis)
      | [':'] => none
      | ':' :: ':' :: tail =>
        if ellipsis.isSome then none
        else if tail.isEmpty then some (ip ++ [acc], some (ip.length + 1))
        else parseIPv6Loop fuel tail (ip ++ [acc]) (some (ip.length + 1))
      | ':' :: tail => parseIPv6Loop fuel tail (ip ++ [acc]) ellipsis
      | _ => none

/-- Fill the ellipsis with zero groups; without one the address must already be complete. -/
def expandEllipsis : List Nat × Option Nat → Option IP
  | (ip, none) => if ip.length = 8 then some ip else none
  | (ip, some at_) =>
    if ip.length < 8 then some (ip.take at_ ++ List.replicate (8 - ip.length) 0 ++ ip.drop at_)
    else none

/-- `parseIPv6`, zones refused. -/
def parseIPv6 (s : List Char) : Option IP :=
  match s with
  | [':', ':'] => some (List.replicate 8 0)
  | ':' :: ':' :: rest => (parseIPv6Loop 8 rest [] (some 0)).bind expandEllipsis
  | _ => (parseIPv6Loop 8 s [] none).bind expandEllipsis

/-- `net.ParseIP`: nil is `none`. The first of `.`, `:` and `%` decides which grammar is tried. -/
def parseIP (s : String) : Option IP :=
  match s.toList.find? (fun c => c == '.' || c == ':' || c == '%') with
  | some '.' => (parseIPv4Fields s.toList).map ([0, 0, 0, 0, 0, 0xffff] ++ ·)
  | some ':' => parseIPv6 s.toList
  | _ => none

example : parseIP "10.0.0.1" = some [0, 0, 0, 0, 0, 65535, 2560, 1] := by decide +kernel

example : parseIP "fe80::1:10.0.0.1" = some [65152, 0, 0, 0, 0, 1, 2560, 1] ∧
    parseIP "1.2.3" = none ∧ parseIP "01.2.3.4" = none ∧ parseIP "::1%eth0" = none := by
  decide +kernel

end Go
