import HttpCache.Text.Ascii
import HttpCache.Text.Decimal

/-!
# HttpCache.Json.Writer

Compact JSON.

* `quoted`, `natural`, `integer`, `array`, `object` — the octets of the pieces; nothing here can
  fail.
* `Value` — values of any shape, whose maps may have any value as a key.
* `Value.encode` — the octets of a value; it fails exactly when a key has no text.

Characters above U+001F are written as they are, apart from the quote and the backslash.
-/

namespace HttpCache
namespace Json

open Ascii

def hexDigit (n : Nat) : UInt8 := if n < 10 then UInt8.ofNat (48 + n) else UInt8.ofNat (87 + n)

def escapeByte (b : UInt8) : Bytes :=
  if b = doubleQuote || b = backslash then [backslash, b]
  else if b = 8 then [backslash, 98]
  else if b = tab then [backslash, 116]
  else if b = lf then [backslash, 110]
  else if b = 12 then [backslash, 102]
  else if b = cr then [backslash, 114]
  else if b < 32 then [backslash, 117, 48, 48, hexDigit (b.toNat / 16), hexDigit (b.toNat % 16)]
  else [b]

def escape (bs : Bytes) : Bytes := bs.flatMap escapeByte

def quotedBytes (bs : Bytes) : Bytes := doubleQuote :: escape bs ++ [doubleQuote]

def quoted (s : String) : Bytes := quotedBytes (Text.utf8 s)

def natural (n : Nat) : Bytes := Text.utf8 (Decimal.text n)

def integer (i : Int) : Bytes := Text.utf8 (Decimal.integerText i)

def array (items : List Bytes) : Bytes :=
  leftBracket :: [comma].intercalate items ++ [rightBracket]

def member (m : String × Bytes) : Bytes := quoted m.1 ++ colon :: m.2

def object (members : List (String × Bytes)) : Bytes :=
  leftBrace :: [comma].intercalate (members.map member) ++ [rightBrace]

inductive EncodeError where
  | keyNotText
  deriving DecidableEq, Repr

namespace EncodeError

def message : EncodeError → String
  | keyNotText => "key must be a string"

end EncodeError

/-- A value to be written; the entries of a map keep their order. -/
inductive Value where
  | null
  | bool (b : Bool)
  | number (n : Int)
  | text (s : String)
  | list (items : List Value)
  | map (entries : List (Value × Value))

namespace Value

/-- A map with the given names as keys, sorted by name. -/
def sorted (fields : List (String × Value)) : Value :=
  .map ((fields.mergeSort fun a b => a.1 ≤ b.1).map fun field => (.text field.1, field.2))

def keyText? : Value → Option String
  | text s => some s
  | number n => some (Decimal.integerText n)
  | bool b => some (if b then "true" else "false")
  | _ => none

mutual

def encode : Value → Except EncodeError Bytes
  | null => .ok (Text.utf8 "null")
  | bool b => .ok (Text.utf8 (if b then "true" else "false"))
  | number n => .ok (integer n)
  | text s => .ok (quoted s)
  | list items =>
    match encodeItems items with
    | .error e => .error e
    | .ok encoded => .ok (array encoded)
  | map entries =>
    match encodeEntries entries with
    | .error e => .error e
    | .ok encoded => .ok (object encoded)

def encodeItems : List Value → Except EncodeError (List Bytes)
  | [] => .ok []
  | item :: rest =>
    match encode item with
    | .error e => .error e
    | .ok first =>
      match encodeItems rest with
      | .error e => .error e
      | .ok others => .ok (first :: others)

def encodeEntries : List (Value × Value) → Except EncodeError (List (String × Bytes))
  | [] => .ok []
  | (key, value) :: rest =>
    match keyText? key with
    | none => .error .keyNotText
    | some name =>
      match encode value with
      | .error e => .error e
      | .ok first =>
        match encodeEntries rest with
        | .error e => .error e
        | .ok others => .ok ((name, first) :: others)

end

end Value
end Json
end HttpCache
