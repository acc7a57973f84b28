import Goca.Go.Strings

/-!
# Package net/url

`url.Parse`, as far as a program reads its result. Structure is decided by ASCII delimiters and is
read off the runes of a text; what `unescape` leaves are bytes. The grammar of what stands between
`//` and the next slash (user info, bracketed addresses, ports) has changed between versions of the
package, so the parser of the authority is a parameter.
-/

set_option autoImplicit false

namespace Go.Url

/-- A `url.URL`: the parts that are read. -/
structure URL where
  scheme : String := ""
  opaquePart : String := ""
  host : List UInt8 := []
  path : List UInt8 := []
  forceQuery : Bool := false
  rawQuery : String := ""
  fragment : List UInt8 := []
  deriving Repr, DecidableEq

/-- `parseAuthority`: the host of an authority, or why it is none. -/
class Authority where
  parseAuthority : String → Except Error (List UInt8)

/-- Hosts of lower-case letters, digits, dots and hyphens and nothing beside them, to parse given
URLs. -/
@[reducible] def plainAuthority : Authority where
  parseAuthority text :=
    if text.toList.all fun c => c.isLower || c.isDigit || c == '.' || c == '-' then
      .ok (text.toList.flatMap String.utf8EncodeChar)
    else .error (.new ("invalid character in host name " ++ quote text))

/-- An `EscapeError`. -/
def escapeError (s : List Char) : Error :=
  .new ("invalid URL escape " ++ quote (.ofList (s.take 3)))

/-- `unescape` of a path or a fragment: the bytes that a text stands for. -/
def unescape : List Char → Except Error (List UInt8)
  | [] => .ok []
  | '%' :: a :: b :: rest =>
    match hexValue a, hexValue b with
    | some high, some low => (unescape rest).map (UInt8.ofNat (16 * high + low) :: ·)
    | _, _ => .error (escapeError ('%' :: a :: b :: rest))
  | '%' :: rest => .error (escapeError ('%' :: rest))
  | c :: rest => (unescape rest).map (String.utf8EncodeChar c ++ ·)

/-- `stringContainsCTLByte` asks this of every byte. -/
def isCTL (c : Char) : Bool := c.val < 32 || c.val == 127

/-- A rune of a scheme. -/
def isSchemeRune (c : Char) : Bool :=
  c.isAlpha || c.isDigit || c == '+' || c == '-' || c == '.'

/-- `getScheme`: the scheme and what follows its colon, or no scheme and the whole text. -/
def getScheme (rawURL : List Char) : Except Error (List Char × List Char) :=
  let scheme := rawURL.takeWhile isSchemeRune
  if scheme.head?.all Char.isAlpha = false then .ok ([], rawURL)
  else
    match rawURL.drop scheme.length with
    | ':' :: rest =>
      if scheme = [] then .error (.new "missing protocol scheme") else .ok (scheme, rest)
    | _ => .ok ([], rawURL)

/-- What stands before the query, the query, and `ForceQuery`: that there is an empty one. -/
def cutQuery (rest : List Char) : List Char × List Char × Bool :=
  if rest.getLast? = some '?' ∧ rest.count '?' = 1 then (rest.dropLast, [], true)
  else (rest.takeWhile (· != '?'), (rest.dropWhile (· != '?')).drop 1, false)

/-- What follows the scheme and precedes the query. -/
def parseRest [Authority] (url : URL) (rest : List Char) : Except Error URL :=
  if rest.head? ≠ some '/' ∧ url.scheme ≠ "" then .ok { url with opaquePart := .ofList rest }
  else if rest.head? ≠ some '/' ∧ (rest.takeWhile (· != '/')).contains ':' = true then
    .error (.new "first path segment in URL cannot contain colon")
  else if (url.scheme ≠ "" ∨ rest.take 3 ≠ ['/', '/', '/']) ∧ rest.take 2 = ['/', '/'] then do
    let host ← Authority.parseAuthority (.ofList ((rest.drop 2).takeWhile (· != '/')))
    let path ← unescape ((rest.drop 2).dropWhile (· != '/'))
    .ok { url with host, path }
  else do
    let path ← unescape rest
    .ok { url with path }

/-- `parse`, with `viaRequest` false: a URL without its fragment. -/
def parseFragmentless [Authority] (rawURL : List Char) : Except Error URL :=
  if rawURL.any isCTL = true then .error (.new "net/url: invalid control character in URL")
  else if rawURL = ['*'] then .ok { path := String.utf8EncodeChar '*' }
  else do
    let (scheme, rest) ← getScheme rawURL
    let (rest, rawQuery, forceQuery) := cutQuery rest
    parseRest { scheme := .ofList (scheme.map Char.toLower), rawQuery := .ofList rawQuery,
                forceQuery } rest

/-- The `url.Error` of `Parse`. -/
def parseError (url : List Char) (err : Error) : Error :=
  .wrap ("parse " ++ quote (.ofList url) ++ ": ") err ""

/-- `url.Parse`. -/
def parse [Authority] (rawURL : String) : Except Error URL := do
  let u := rawURL.toList.takeWhile (· != '#')
  let frag := (rawURL.toList.dropWhile (· != '#')).drop 1
  let url ← (parseFragmentless u).mapError (parseError u)
  if frag = [] then .ok url
  else do
    let fragment ← (unescape frag).mapError (parseError rawURL.toList)
    .ok { url with fragment }

end Go.Url
