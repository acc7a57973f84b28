import Goca.Go.Strings

/-!
# Placeholders for PostgreSQL

Every query of package store is written once, with `?` for each of its arguments. The driver
`goca-postgres` numbers the placeholders right before the text is handed to pgx, and turns Boolean
arguments into integers. The text is scanned byte by byte, so it is a list of bytes here.
-/

set_option autoImplicit false

namespace Goca.Store.Rebind

/-- The bytes of a single quote, a double quote, a question mark and a dollar sign. -/
def singleQuote : UInt8 := 0x27

def doubleQuote : UInt8 := 0x22

def questionMark : UInt8 := 0x3f

def dollar : UInt8 := 0x24

/-- The bytes that `strconv.Itoa` writes. -/
def itoa (n : Nat) : List UInt8 := (Nat.toDigits 10 n).map Char.toUInt8

/-- The loop of `rebindQuery`, after `n` placeholders. -/
def rebindLoop : Nat → Bool → Bool → List UInt8 → List UInt8
  | _, _, _, [] => []
  | n, inSingle, inDouble, ch :: rest =>
    if inSingle then
      ch :: rebindLoop n (if ch = singleQuote then false else inSingle) inDouble rest
    else if inDouble then
      ch :: rebindLoop n inSingle (if ch = doubleQuote then false else inDouble) rest
    else if ch = singleQuote then ch :: rebindLoop n true inDouble rest
    else if ch = doubleQuote then ch :: rebindLoop n inSingle true rest
    else if ch = questionMark then
      dollar :: itoa (n + 1) ++ rebindLoop (n + 1) inSingle inDouble rest
    else ch :: rebindLoop n inSingle inDouble rest

/-- `rebindQuery` rewrites `?` placeholders into `$1, $2, ...`. -/
def rebindQuery (query : List UInt8) : List UInt8 :=
  if query.contains questionMark then rebindLoop 0 false false query else query

/-- The value of an argument, of which the driver looks into Booleans only. -/
inductive Value (V : Type)
  | bool (b : Bool)
  | int64 (n : Int)
  | other (v : V)
  deriving DecidableEq

variable {V : Type}

/-- What `normalizeBoolArgs` makes of one value. -/
def Value.normalizeBool : Value V → Value V
  | .bool b => .int64 (if b then 1 else 0)
  | v => v

/-- `normalizeBoolArgs` converts Boolean arguments to 0 or 1. -/
def normalizeBoolArgs (args : List (Value V)) : List (Value V) := args.map Value.normalizeBool

/-- What `ExecContext` and `QueryContext` hand to the connection of pgx. -/
def handed (query : List UInt8) (args : List (Value V)) : List UInt8 × List (Value V) :=
  (rebindQuery query, normalizeBoolArgs args)

end Goca.Store.Rebind
