import HttpCache.Number.Shortest
import HttpCache.Text.Base64
import HttpCache.Text.Hidden

/-!
# HttpCache.Json.Fault

Why octets are not the JSON of a wanted value.

* `Cause` — one constructor for each way to fail; `Cause.category` tells a text that ends too
  early, a text that is not JSON, and JSON of the wrong shape apart.
* `Fault` — a cause together with the octets after the place where it was noticed.
* `Error` — a cause with its line and column in the whole input, and its text.
-/

namespace HttpCache
namespace Json

inductive Category where
  /-- The text ends inside a value. -/
  | truncated
  /-- The text is not JSON. -/
  | malformed
  /-- The text is JSON of another shape. -/
  | mismatch
  deriving DecidableEq, Repr

/-- What a text may end inside of. -/
inductive Unfinished where
  | list
  | object
  | string
  | value
  deriving DecidableEq, Repr

inductive Found where
  | null
  | bool (b : Bool)
  | integer (i : Int)
  | float (x : Binary64)
  | text (s : String)
  | list
  | object
  deriving DecidableEq, Repr

inductive Cause where
  | endOf (what : Unfinished)
  | expectedColon
  | expectedListCommaOrEnd
  | expectedObjectCommaOrEnd
  | expectedIdent
  | expectedValue
  | invalidEscape
  | invalidNumber
  | numberOutOfRange
  | invalidCodePoint
  | controlCharacter
  | keyNotText
  | loneSurrogate
  | unfinishedSurrogate
  | trailingComma
  | trailingCharacters
  | wrongType (found : Found) (expected : String)
  | outOfRange (i : Int) (expected : String)
  | wrongLength (n : Nat) (expected : String)
  | missingField (name : String)
  | duplicateField (name : String)
  | notBase64 (e : Base64.Error)
  deriving DecidableEq, Repr

namespace Unfinished

def message : Unfinished → String
  | list => "EOF while parsing a list"
  | object => "EOF while parsing an object"
  | string => "EOF while parsing a string"
  | value => "EOF while parsing a value"

end Unfinished

namespace Found

/-- A text in double quotes; quotes, backslashes and what cannot be seen are written as escapes. -/
def quote (s : String) : String :=
  let escape (c : Char) : String :=
    if c = '"' then "\\\"" else if c = '\\' then "\\\\"
    else if c = '\n' then "\\n" else if c = '\r' then "\\r" else if c = '\t' then "\\t"
    else if c.toNat = 0 then "\\0"
    else if Text.isHidden c then
      "\\u\x7b" ++ String.ofList (Nat.toDigits 16 c.toNat) ++ "\x7d"
    else String.singleton c
  "\"" ++ String.join (s.toList.map escape) ++ "\""

def message : Found → String
  | null => "null"
  | bool b => "boolean `" ++ (if b then "true" else "false") ++ "`"
  | integer i => "integer `" ++ Decimal.integerText i ++ "`"
  | float x => "floating point `" ++ x.literal ++ "`"
  | text s => "string " ++ quote s
  | list => "sequence"
  | object => "map"

end Found

namespace Cause

def category : Cause → Category
  | endOf _ => .truncated
  | wrongType _ _ | outOfRange _ _ | wrongLength _ _ | missingField _ | duplicateField _
  | notBase64 _ => .mismatch
  | _ => .malformed

def message : Cause → String
  | endOf what => what.message
  | expectedColon => "expected `:`"
  | expectedListCommaOrEnd => "expected `,` or `]`"
  | expectedObjectCommaOrEnd => "expected `,` or `\x7d`"
  | expectedIdent => "expected ident"
  | expectedValue => "expected value"
  | invalidEscape => "invalid escape"
  | invalidNumber => "invalid number"
  | numberOutOfRange => "number out of range"
  | invalidCodePoint => "invalid unicode code point"
  | controlCharacter => "control character (\\u0000-\\u001F) found while parsing a string"
  | keyNotText => "key must be a string"
  | loneSurrogate => "lone leading surrogate in hex escape"
  | unfinishedSurrogate => "unexpected end of hex escape"
  | trailingComma => "trailing comma"
  | trailingCharacters => "trailing characters"
  | wrongType found expected => "invalid type: " ++ found.message ++ ", expected " ++ expected
  | outOfRange i expected =>
    "invalid value: integer `" ++ Decimal.integerText i ++ "`, expected " ++ expected
  | wrongLength n expected => "invalid length " ++ Decimal.text n ++ ", expected " ++ expected
  | missingField name => "missing field `" ++ name ++ "`"
  | duplicateField name => "duplicate field `" ++ name ++ "`"
  | notBase64 e => e.message

end Cause

structure Fault where
  cause : Cause
  rest : Bytes
  deriving DecidableEq, Repr

structure Error where
  cause : Cause
  line : Nat
  column : Nat
  deriving DecidableEq, Repr

namespace Fault

def before (f : Fault) (input : Bytes) : Bytes := input.take (input.length - f.rest.length)

/-- The place of a fault found in `input`: lines count from one, columns from the line end. -/
def locate (f : Fault) (input : Bytes) : Error :=
  { cause := f.cause
    line := (f.before input).count 10 + 1
    column := ((f.before input).reverse.takeWhile (· != 10)).length }

end Fault

namespace Error

def category (e : Error) : Category := e.cause.category

def message (e : Error) : String :=
  e.cause.message ++ " at line " ++ Decimal.text e.line ++ " column " ++ Decimal.text e.column

end Error
end Json
end HttpCache
