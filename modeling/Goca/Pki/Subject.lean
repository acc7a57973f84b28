import Goca.Pki.Types

/-!
# Subjects and subject alternative names

The distinguished name of forms and flags, its conversion to and from `pkix.Name`, and the textual
form of alternative names (`DNS:host`, `IP:1.2.3.4`, ...) with the parser that infers their type.
-/

set_option autoImplicit false

namespace Goca.Pki

open Go (IP URL)

/-- A distinguished name in a form that is easy to bind from forms, JSON and flags. -/
structure Subject where
  commonName : String := ""
  organization : String := ""
  organizationalUnit : String := ""
  country : String := ""
  province : String := ""
  locality : String := ""
  streetAddress : String := ""
  postalCode : String := ""
  emailAddress : String := ""
  deriving Repr, DecidableEq

/-- The attribute values `add` appends: the trimmed text, unless it is empty. -/
def attributeValues (v : String) : List String :=
  let v := Go.trimSpace v
  if v = "" then [] else [v]

/-- `Subject.PKIX` converts to the standard library representation. -/
def Subject.pkix [Go.Runtime] (s : Subject) : Name where
  commonName := Go.trimSpace s.commonName
  organization := attributeValues s.organization
  organizationalUnit := attributeValues s.organizationalUnit
  country := attributeValues (Go.toUpper s.country)
  province := attributeValues s.province
  locality := attributeValues s.locality
  streetAddress := attributeValues s.streetAddress
  postalCode := attributeValues s.postalCode

/-- `SubjectFromPKIX` keeps the first value of each attribute. -/
def subjectFromPKIX (n : Name) : Subject where
  commonName := n.commonName
  organization := n.organization.headD ""
  organizationalUnit := n.organizationalUnit.headD ""
  country := n.country.headD ""
  province := n.province.headD ""
  locality := n.locality.headD ""
  streetAddress := n.streetAddress.headD ""
  postalCode := n.postalCode.headD ""

/-- `Subject.Validate` checks the minimum requirements for a usable subject. -/
def Subject.validate [Go.Runtime] (s : Subject) : Except Go.Error Unit := do
  if Go.trimSpace s.commonName = "" then
    throw (.new "common name (CN) is required")
  let c := Go.trimSpace s.country
  if c ≠ "" ∧ c.utf8ByteSize ≠ 2 then
    throw (.new ("country must be a 2-letter code, got " ++ Go.quote c))
  let e := Go.trimSpace s.emailAddress
  if e ≠ "" ∧ Go.Runtime.mailAddress e = false then
    throw (.new ("invalid email address " ++ Go.quote e))

/-- `DNString` renders a name as "CN=x, O=y, C=z". -/
def dnString (n : Name) : String :=
  let parts :=
    (if n.commonName = "" then [] else ["CN=" ++ n.commonName]) ++
    n.organizationalUnit.map ("OU=" ++ ·) ++ n.organization.map ("O=" ++ ·) ++
    n.locality.map ("L=" ++ ·) ++ n.province.map ("ST=" ++ ·) ++
    n.streetAddress.map ("STREET=" ++ ·) ++ n.postalCode.map ("postalCode=" ++ ·) ++
    n.country.map ("C=" ++ ·)
  if parts.isEmpty then "(empty subject)" else Go.join parts ", "

/-- `Subject.String` renders an OpenSSL-style one-line DN. -/
def Subject.text [Go.Runtime] (s : Subject) : String := dnString s.pkix

/-! ## Alternative names as text -/

/-- The length of the run of zero groups at the head of an address. -/
def zeroRun (groups : List Nat) : Nat := (groups.takeWhile (· == 0)).length

/-- The first longest run of at least two zero groups: where it starts and how long it is. -/
def longestZeros (ip : IP) : Option (Nat × Nat) :=
  (List.range ip.length).foldl (fun best i =>
    let n := zeroRun (ip.drop i)
    if 2 ≤ n ∧ (best.map Prod.snd).getD 0 < n then some (i, n) else best) none

/-- `net.IP.String`: dotted decimal for IPv4, and for IPv6 the groups with the first longest run
of zeros elided. -/
def ipText (ip : IP) : String :=
  let groups (g : List Nat) := Go.join (g.map fun x => .ofList (Go.hexDigits x)) ":"
  match ip with
  | [0, 0, 0, 0, 0, 0xffff, a, b] =>
    Go.join ([a / 256, a % 256, b / 256, b % 256].map toString) "."
  | _ =>
    match longestZeros ip with
    | some (i, n) => groups (ip.take i) ++ "::" ++ groups (ip.drop (i + n))
    | none => groups ip

/-- `SANSet.Strings` renders the set to the prefixed form used for storage and display. -/
def SANSet.strings (s : SANSet) : List String :=
  s.dns.map ("DNS:" ++ ·) ++ s.ips.map (fun ip => "IP:" ++ ipText ip) ++
    s.emails.map ("EMAIL:" ++ ·) ++ s.uris.map (fun u => "URI:" ++ u.text)

/-- The separators of a free-form list of names. -/
def isSeparator (c : Char) : Bool :=
  c == ',' || c == '\n' || c == '\r' || c == ' ' || c == '\t' || c == ';'

/-- `splitList` flattens comma, space or newline separated values. -/
def splitList (xs : List String) : List String :=
  (xs.flatMap (Go.fieldsFunc isSeparator)).filterMap fun part =>
    let p := Go.trimSpace part
    if p = "" then none else some p

/-- What is left of a text when its first `n` bytes are cut off. -/
def dropBytes : Nat → List Char → List Char
  | 0, s => s
  | _, [] => []
  | n, c :: s => dropBytes (n - c.utf8Size) s

/-- The text after the first `n` bytes, trimmed. The prefix was found in the lower-case text, whose
runes may be shorter than those of the text that is cut. -/
def afterPrefix (item : String) (n : Nat) : String :=
  Go.trimSpace (.ofList (dropBytes n item.toList))

/-- One entry of `ParseSANs`: a prefix names the type, otherwise it is inferred. -/
def addSAN [Go.Runtime] (set : SANSet) (item : String) : Except Go.Error SANSet :=
  let lower := Go.toLower item
  let addURI (text : String) : Except Go.Error SANSet :=
    match Go.Runtime.urlParse text with
    | .ok u => .ok { set with uris := set.uris ++ [u] }
    | .error e => .error (.wrap ("invalid URI SAN " ++ Go.quote item ++ ": ") (.driver e) "")
  if Go.hasPrefix lower "dns:" then .ok { set with dns := set.dns ++ [afterPrefix item 4] }
  else if Go.hasPrefix lower "ip:" then
    match Go.parseIP (afterPrefix item 3) with
    | some ip => .ok { set with ips := set.ips ++ [ip] }
    | none => .error (.new ("invalid IP SAN " ++ Go.quote (afterPrefix item 3)))
  else if Go.hasPrefix lower "email:" then
    .ok { set with emails := set.emails ++ [afterPrefix item 6] }
  else if Go.hasPrefix lower "uri:" then addURI (afterPrefix item 4)
  else match Go.parseIP item with
    | some ip => .ok { set with ips := set.ips ++ [ip] }
    | none =>
      if Go.contains item "@" then .ok { set with emails := set.emails ++ [item] }
      else if Go.contains item "://" then addURI item
      else .ok { set with dns := set.dns ++ [item] }

/-- `ParseSANs` turns free-form user input into a typed SAN set. -/
def parseSANs [Go.Runtime] (entries : List String) : Except Go.Error SANSet :=
  (splitList entries).foldlM addSAN {}

/-- JSON string escapes of `json.Marshal`. -/
def jsonRune (c : Char) : List Char :=
  if c = '"' then ['\\', '"']
  else if c = '\\' then ['\\', '\\']
  else if c = '\n' then ['\\', 'n']
  else if c = '\r' then ['\\', 'r']
  else if c = '\t' then ['\\', 't']
  else if c = '\x08' then ['\\', 'b']
  else if c = '\x0c' then ['\\', 'f']
  else if c.val < 0x20 ∨ c = '<' ∨ c = '>' ∨ c = '&' ∨ c.val = 0x2028 ∨ c.val = 0x2029 then
    let ds := Go.hexDigits c.toNat
    ['\\', 'u'] ++ List.replicate (4 - ds.length) '0' ++ ds
  else [c]

/-- `json.Marshal` of a string. -/
def jsonString (s : String) : String := "\"" ++ .ofList (s.toList.flatMap jsonRune) ++ "\""

/-- `EncodeSANs` serialises a SAN list for storage. -/
def encodeSANs (sans : List String) : String :=
  "[" ++ Go.join (sans.map jsonString) "," ++ "]"

/-- `SerialHex` renders a serial as upper-case hex, zero padded to a byte boundary. -/
def serialHex (n : Nat) : String :=
  let ds := (Go.hexDigits n).map Char.toUpper
  .ofList (if ds.length % 2 = 1 then '0' :: ds else ds)

/-- The value of a text of hexadecimal digits; the empty text has none. -/
def hexNumber (s : List Char) : Option Nat :=
  if s.isEmpty then none
  else s.foldlM (fun n c => (Go.hexValue c).map (n * 16 + ·)) 0

/-- `big.Int.SetString(s, 16)`: an optional sign and at least one digit. -/
def setString16 (s : List Char) : Option Int :=
  match s with
  | '-' :: ds => (hexNumber ds).map fun n => -(n : Int)
  | '+' :: ds => (hexNumber ds).map fun n => (n : Int)
  | ds => (hexNumber ds).map fun n => (n : Int)

/-- `SerialFromHex` parses a hex serial, tolerating colons and a 0x prefix. -/
def serialFromHex [Go.Runtime] (s : String) : Option Int :=
  let s := Go.toLower (Go.trimSpace s)
  let s := (Go.cutPrefix s "0x").getD s
  setString16 (Go.replaceRune s ':' []).toList

/-- `hexColons`: a key identifier as upper-case bytes between colons. -/
def hexColons (b : List Nat) : String :=
  Go.join (b.map fun x =>
    let ds := (Go.hexDigits x).map Char.toUpper
    .ofList (if ds.length < 2 then '0' :: ds else ds)) ":"

end Goca.Pki
