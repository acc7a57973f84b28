import Goca.Go.Network
import Goca.Go.Url

/-!
# Where a webhook may point

`ValidateWebhookURL`: a URL of HTTP whose host, if it is written as an address, is none that the
host talks to itself by and none of the link-local ones.
-/

set_option autoImplicit false

namespace Goca.Webhooks

/-- `URL.Hostname`: the host without a port of digits, and without brackets. -/
def hostname (host : List UInt8) : String :=
  let text := host.map fun b => Char.ofNat b.toNat
  let port := text.reverse.takeWhile (· != ':')
  let host :=
    if text.contains ':' = true ∧ port.all Char.isDigit = true then
      text.take (text.length - port.length - 1)
    else text
  .ofList (if host.head? = some '[' ∧ host.getLast? = some ']' then host.tail.dropLast else host)

/-- `IP.IsLoopback`. -/
def isLoopback (ip : Go.IP) : Bool :=
  if Go.isIPv4 ip = true then ip.getD 6 0 / 256 == 127 else ip == [0, 0, 0, 0, 0, 0, 0, 1]

/-- `IP.IsLinkLocalUnicast`. -/
def isLinkLocalUnicast (ip : Go.IP) : Bool :=
  if Go.isIPv4 ip = true then ip.getD 6 0 == 169 * 256 + 254 else ip.getD 0 0 / 64 == 0xfe80 / 64

/-- `IP.IsLinkLocalMulticast`. -/
def isLinkLocalMulticast (ip : Go.IP) : Bool :=
  if Go.isIPv4 ip = true then ip.getD 6 0 == 224 * 256 && ip.getD 7 0 / 256 == 0
  else ip.getD 0 0 / 256 == 0xff && ip.getD 0 0 % 16 == 2

/-- `IP.IsUnspecified`. -/
def isUnspecified (ip : Go.IP) : Bool :=
  ip == [0, 0, 0, 0, 0, 0xffff, 0, 0] || ip == [0, 0, 0, 0, 0, 0, 0, 0]

/-- `isBlockedIP` reports whether an address must never be a delivery target. -/
def isBlockedIP (ip : Go.IP) : Bool :=
  isLoopback ip || isLinkLocalUnicast ip || isLinkLocalMulticast ip || isUnspecified ip

/-- `ValidateWebhookURL` rejects a URL that a delivery could never legitimately go to. -/
def validateWebhookURL [Go.Url.Authority] (raw : String) : Except Go.Error Unit := do
  let u ← (Go.Url.parse (Go.trimSpace raw)).mapError fun e => .wrap "not a valid URL: " e ""
  if u.scheme ≠ "http" ∧ u.scheme ≠ "https" then
    .error (.new ("scheme must be http or https, got " ++ Go.quote u.scheme))
  else if hostname u.host = "" then .error (.new "URL has no host")
  else match Go.parseIP (hostname u.host) with
    | none => .ok ()
    | some ip =>
      if isBlockedIP ip = true then
        .error (.new ("refusing to deliver to " ++ Go.ipText ip ++
          ": this address can never be a legitimate webhook receiver"))
      else .ok ()

end Goca.Webhooks
