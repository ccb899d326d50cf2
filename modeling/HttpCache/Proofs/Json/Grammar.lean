import HttpCache.Proofs.Json.Number

/-!
# HttpCache.Proofs.Json.Grammar

What a JSON text is, apart from how it is read.

* `Spelling` — the characters between the quotes of a string, each in one of the ways in which it
  may be written; `Spelling.text?` is the text that is spelled.
* `Numeral` — a number in one of the ways in which it may be written.
* `Tree` — a value of any shape and depth, with its leaves as they are written; `Tree.tokens` are
  its tokens in order.
* `Spaced` — a text is made of tokens, with blanks around them or none.

A spelling in which half of a surrogate pair stands alone is well formed but spells no text.
-/

namespace HttpCache
namespace Json

open Ascii

/-! ## Strings -/

structure HexDigit where
  value : Fin 16
  capital : Bool
  deriving DecidableEq, Repr

def HexDigit.octet (d : HexDigit) : UInt8 :=
  if d.value.val < 10 then UInt8.ofNat (48 + d.value.val)
  else if d.capital then UInt8.ofNat (55 + d.value.val) else UInt8.ofNat (87 + d.value.val)

/-- The last hexadecimal digit of a number, in small letters. -/
def HexDigit.ofNat (n : Nat) : HexDigit := ⟨Fin.ofNat 16 n, false⟩

/-- The four digits of a code. -/
structure Code where
  first : HexDigit
  second : HexDigit
  third : HexDigit
  fourth : HexDigit
  deriving DecidableEq, Repr

namespace Code

def value (c : Code) : Nat :=
  ((c.first.value.val * 16 + c.second.value.val) * 16 + c.third.value.val) * 16 +
    c.fourth.value.val

def ofNat (n : Nat) : Code := ⟨.ofNat (n / 4096), .ofNat (n / 256), .ofNat (n / 16), .ofNat n⟩

def octets (c : Code) : Bytes :=
  [c.first.octet, c.second.octet, c.third.octet, c.fourth.octet]

end Code

/-- The escapes of one letter. -/
inductive Escape where
  | doubleQuote
  | backslash
  | slash
  | backspace
  | formFeed
  | lineFeed
  | carriageReturn
  | tab
  deriving DecidableEq, Repr

namespace Escape

/-- The letter behind the backslash. -/
def letter : Escape → UInt8
  | doubleQuote => Ascii.doubleQuote
  | backslash => Ascii.backslash
  | slash => Ascii.slash
  | backspace => 98
  | formFeed => 102
  | lineFeed => 110
  | carriageReturn => 114
  | tab => 116

def meaning : Escape → Char
  | doubleQuote => '"'
  | backslash => '\\'
  | slash => '/'
  | backspace => '\x08'
  | formFeed => '\x0c'
  | lineFeed => '\n'
  | carriageReturn => '\r'
  | tab => '\t'

end Escape

inductive Piece where
  | plain (c : Char) (h : 32 ≤ c.toNat ∧ c ≠ '"' ∧ c ≠ '\\')
  | escape (e : Escape)
  | code (c : Code)
  deriving DecidableEq, Repr

def Piece.octets : Piece → Bytes
  | plain c _ => String.utf8EncodeChar c
  | escape e => [backslash, e.letter]
  | code c => backslash :: 117 :: c.octets

abbrev Spelling : Type := List Piece

namespace Spelling

def octets (ps : Spelling) : Bytes := ps.flatMap Piece.octets

/-- The characters that are spelled; a code above U+FFFF is a pair of surrogates. -/
def chars? : Spelling → Option (List Char)
  | [] => some []
  | .plain c _ :: ps => (chars? ps).map (c :: ·)
  | .escape e :: ps => (chars? ps).map (e.meaning :: ·)
  | .code c :: ps =>
    if isLowSurrogate c.value then none
    else if isHighSurrogate c.value then
      match ps with
      | .code low :: ps =>
        if isLowSurrogate low.value then
          (chars? ps).map (Char.ofNat (joinSurrogates c.value low.value) :: ·)
        else none
      | _ => none
    else (chars? ps).map (Char.ofNat c.value :: ·)

def text? (ps : Spelling) : Option String := (chars? ps).map String.ofList

def token (ps : Spelling) : Bytes := doubleQuote :: ps.octets ++ [doubleQuote]

end Spelling

/-! ## Numbers -/

structure Digits where
  first : Fin 10
  others : List (Fin 10)
  deriving DecidableEq, Repr

def Digits.octets (d : Digits) : Bytes := decimalDigit d.first :: d.others.map fun n => decimalDigit n.val

/-- The digits in front of the point: a zero alone, or digits that do not start with a zero. -/
inductive Whole where
  | zero
  | counting (first : Fin 10) (h : first ≠ 0) (others : List (Fin 10))
  deriving DecidableEq, Repr

namespace Whole

def octets : Whole → Bytes
  | zero => [Ascii.zero]
  | counting first _ others => decimalDigit first :: others.map fun n => decimalDigit n.val

/-- One more digit behind the others. -/
def snoc : Whole → Fin 10 → Whole
  | zero, d => if h : d ≠ 0 then counting d h [] else zero
  | counting first h others, d => counting first h (others ++ [d])

def ofNat (n : Nat) : Whole := if n = 0 then zero else (ofNat (n / 10)).snoc (Fin.ofNat 10 n)

end Whole

structure Exponent where
  capital : Bool
  /-- Whether the sign is a minus, if there is a sign. -/
  sign : Option Bool
  digits : Digits
  deriving DecidableEq, Repr

namespace Exponent

def signOctets (e : Exponent) : Bytes :=
  match e.sign with
  | none => []
  | some true => [minus]
  | some false => [plus]

def octets (e : Exponent) : Bytes :=
  (if e.capital then 69 else 101) :: e.signOctets ++ e.digits.octets

end Exponent

structure Numeral where
  negative : Bool
  whole : Whole
  fraction : Option Digits
  exponent : Option Exponent
  deriving DecidableEq, Repr

namespace Numeral

def fractionOctets (n : Numeral) : Bytes :=
  match n.fraction with
  | none => []
  | some digits => dot :: digits.octets

def exponentOctets (n : Numeral) : Bytes :=
  match n.exponent with
  | none => []
  | some e => e.octets

/-- What stands behind the sign. -/
def unsigned (n : Numeral) : Bytes := n.whole.octets ++ n.fractionOctets ++ n.exponentOctets

def octets (n : Numeral) : Bytes := if n.negative then minus :: n.unsigned else n.unsigned

def ofInt (i : Int) : Numeral := ⟨decide (i < 0), .ofNat i.natAbs, none, none⟩

end Numeral

/-! ## Values -/

inductive Tree where
  | null
  | bool (b : Bool)
  | number (n : Numeral)
  | text (ps : Spelling)
  | list (items : List Tree)
  | object (members : List (Spelling × Tree))

/-- The tokens of items in brackets, with commas between the items. -/
def bracketed (frame : Frame) (items : List (List Bytes)) : List Bytes :=
  [frame.opening] :: ([[comma]].intercalate items ++ [[frame.close]])

namespace Tree

mutual

def tokens : Tree → List Bytes
  | null => [[110, 117, 108, 108]]
  | bool true => [[116, 114, 117, 101]]
  | bool false => [[102, 97, 108, 115, 101]]
  | number n => [n.octets]
  | text ps => [ps.token]
  | list items => bracketed .list (itemTokens items)
  | object members => bracketed .object (memberTokens members)

def itemTokens : List Tree → List (List Bytes)
  | [] => []
  | item :: items => item.tokens :: itemTokens items

def memberTokens : List (Spelling × Tree) → List (List Bytes)
  | [] => []
  | (name, value) :: members =>
    (name.token :: [colon] :: value.tokens) :: memberTokens members

end

end Tree

/-- The text is made of the tokens in order, with blanks in front of each and after the last. -/
inductive Spaced : List Bytes → Bytes → Prop where
  | nil {blanks : Bytes} (h : ∀ b ∈ blanks, isBlank b = true) : Spaced [] blanks
  | cons {blanks token text : Bytes} {tokens : List Bytes} (h : ∀ b ∈ blanks, isBlank b = true)
      (htext : Spaced tokens text) : Spaced (token :: tokens) (blanks ++ (token ++ text))

end Json
end HttpCache
