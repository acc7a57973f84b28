import Goca.Go.Strings

/-!
# Package path: glob patterns

`path.Match`: a pattern is cut into chunks at its stars. A chunk is literals, `?`, escapes and
character classes and matches a fixed number of runes; a star before it lets it match later, but
never past a slash. A pattern is checked to its end even when the match has already failed, so a
malformed one is an error for every name.
-/

set_option autoImplicit false

namespace Go

/-- `path.ErrBadPattern`. -/
inductive BadPattern
  | badPattern
  deriving Repr, DecidableEq

/-- `getEsc`: the next, possibly escaped, rune of a character class. -/
def getEsc : List Char → Except BadPattern (Char × List Char)
  | [] => .error .badPattern
  | '-' :: _ => .error .badPattern
  | ']' :: _ => .error .badPattern
  | '\\' :: c :: rest => if rest.isEmpty then .error .badPattern else .ok (c, rest)
  | c :: rest => if rest.isEmpty then .error .badPattern else .ok (c, rest)

/-- The ranges of a character class up to its closing bracket: whether `r` is in one of them. The
fuel is the pattern's length; each range takes at least one rune of it. -/
def classRanges (r : Option Char) :
    Nat → Bool → Bool → List Char → Except BadPattern (Bool × List Char)
  | 0, _, _, _ => .error .badPattern
  | fuel + 1, found, any, chunk =>
    match chunk, any with
    | ']' :: rest, true => .ok (found, rest)
    | _, _ =>
      match getEsc chunk with
      | .error e => .error e
      | .ok (lo, '-' :: rest) =>
        match getEsc rest with
        | .error e => .error e
        | .ok (hi, rest') =>
          classRanges r fuel (found || r.any fun c => decide (lo ≤ c ∧ c ≤ hi)) true rest'
      | .ok (lo, rest) => classRanges r fuel (found || r.any fun c => decide (lo = c)) true rest

/-- `matchChunk`: what is left of the name after the chunk, `none` once the match has failed. -/
def matchChunk : Nat → List Char → Option (List Char) → Except BadPattern (Option (List Char))
  | _, [], s => .ok s
  | 0, _ :: _, _ => .error .badPattern
  | fuel + 1, '[' :: chunk, s =>
    let (negated, body) := match chunk with
      | '^' :: rest => (true, rest)
      | _ => (false, chunk)
    let r := s.bind List.head?
    match classRanges r (body.length + 1) false false body with
    | .error e => .error e
    | .ok (found, rest) =>
      matchChunk fuel rest (if r.isNone || found == negated then none else s.map List.tail)
  | fuel + 1, '?' :: chunk, s =>
    matchChunk fuel chunk (match s with
      | some (c :: t) => if c = '/' then none else some t
      | _ => none)
  | fuel + 1, c :: chunk, s =>
    let (lit?, rest) := match c, chunk with
      | '\\', [] => (none, [])
      | '\\', l :: rest => (some l, rest)
      | _, _ => (some c, chunk)
    match lit? with
    | none => .error .badPattern
    | some lit => matchChunk fuel rest (match s with
      | some (d :: t) => if lit = d then some t else none
      | _ => none)

/-- The runes of the next chunk: up to the next star outside a character class. -/
def chunkLength : Bool → List Char → Nat
  | _, [] => 0
  | _, ['\\'] => 1
  | inrange, '\\' :: _ :: rest => 2 + chunkLength inrange rest
  | _, '[' :: rest => 1 + chunkLength true rest
  | _, ']' :: rest => 1 + chunkLength false rest
  | inrange, '*' :: rest => if inrange then 1 + chunkLength inrange rest else 0
  | inrange, _ :: rest => 1 + chunkLength inrange rest

/-- `scanChunk`: whether a star precedes the next chunk, the chunk, and the rest. -/
def scanChunk (pattern : List Char) : Bool × List Char × List Char :=
  let body := pattern.dropWhile (· == '*')
  let n := chunkLength false body
  (pattern.head? == some '*', body.take n, body.drop n)

/-- The suffixes of a name that a star may skip to, nearest first: it never skips a slash. -/
def starSuffixes : List Char → List (List Char)
  | [] => []
  | c :: rest => if c = '/' then [] else rest :: starSuffixes rest

/-- The first suffix at which the chunk matches, and what is left after it. -/
def firstMatch (chunk : List Char) (last : Bool) :
    List (List Char) → Except BadPattern (Option (List Char))
  | [] => .ok none
  | s :: more =>
    match matchChunk chunk.length chunk (some s) with
    | .error e => .error e
    | .ok (some t) => if last && !t.isEmpty then firstMatch chunk last more else .ok (some t)
    | .ok none => firstMatch chunk last more

/-- Check that the chunks still to come are well formed. -/
def checkRest : Nat → List Char → Except BadPattern Bool
  | 0, _ => .ok false
  | _, [] => .ok false
  | fuel + 1, pattern =>
    let (_, chunk, rest) := scanChunk pattern
    match matchChunk chunk.length chunk (some []) with
    | .error e => .error e
    | .ok _ => checkRest fuel rest

/-- The loop of `path.Match`, one chunk at a time; the fuel is the pattern's length. -/
def matchLoop : Nat → List Char → List Char → Except BadPattern Bool
  | _, [], name => .ok name.isEmpty
  | 0, _ :: _, _ => .ok false
  | fuel + 1, pattern, name =>
    let (star, chunk, rest) := scanChunk pattern
    if star && chunk.isEmpty then .ok (!name.contains '/') else
    let suffixes := if star then name :: starSuffixes name else [name]
    match firstMatch chunk rest.isEmpty suffixes with
    | .error e => .error e
    | .ok (some t) => matchLoop fuel rest t
    | .ok none => checkRest rest.length rest

/-- `path.Match(pattern, name)`. -/
def pathMatch (pattern name : String) : Except BadPattern Bool :=
  matchLoop pattern.toList.length pattern.toList name.toList

example : pathMatch "*.svc.internal" "a.b.svc.internal" = .ok true ∧
    pathMatch "h[a-c]?*" "hbx" = .ok true ∧ pathMatch "a[" "" = .error .badPattern ∧
    pathMatch "*/x" "a/b/x" = .ok false := by decide +kernel

end Go
