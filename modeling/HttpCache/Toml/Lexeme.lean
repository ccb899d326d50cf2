import HttpCache.Text.Radix

/-!
# HttpCache.Toml.Lexeme

The smallest pieces of a TOML document.

* `skipTrivia`, `endLine` — blanks, line ends and comments between and after the pieces.
* `readString` — the four kinds of strings.
* `readKey` — a key of one or more names with points between them.

A reader takes the characters that are left and returns a value with the characters after it, or
`none` if the document is not TOML.
-/

namespace HttpCache
namespace Toml

def isBlank (c : Char) : Bool := c = ' ' || c = '\t'

def isControl (c : Char) : Bool := (c.toNat < 32 && c != '\t') || c.toNat = 127

def skipBlanks (cs : List Char) : List Char := cs.dropWhile isBlank

def startsWithCrlf : List Char → Bool
  | '\r' :: '\n' :: _ => true
  | _ => false

def skipTrivia (inComment : Bool) : List Char → Option (List Char)
  | [] => some []
  | c :: rest =>
    if c = '\n' then skipTrivia false rest
    else if startsWithCrlf (c :: rest) then skipTrivia inComment rest
    else if inComment then if isControl c then none else skipTrivia true rest
    else if c = '#' then skipTrivia true rest
    else if isBlank c then skipTrivia false rest
    else some (c :: rest)

/-- Passes over the rest of a line that holds nothing but blanks and a comment. -/
def endLine (inComment : Bool) : List Char → Option (List Char)
  | [] => some []
  | c :: rest =>
    if c = '\n' then some rest
    else if startsWithCrlf (c :: rest) then endLine inComment rest
    else if inComment then if isControl c then none else endLine true rest
    else if c = '#' then endLine true rest
    else if isBlank c then endLine false rest
    else none

/-! ## Strings -/

/-- The character with a code of hexadecimal digits; surrogates are no characters. -/
def codePoint? (digits : List Char) : Option Char :=
  (Radix.number? 16 digits).bind fun code =>
    if code.isValidChar then some (Char.ofNat code) else none

def shortEscape? : Char → Option Char
  | 'b' => some '\x08'
  | 't' => some '\t'
  | 'n' => some '\n'
  | 'f' => some '\x0c'
  | 'r' => some '\r'
  | 'e' => some '\x1b'
  | '"' => some '"'
  | '\\' => some '\\'
  | _ => none

def codeWidth? : Char → Option Nat
  | 'x' => some 2
  | 'u' => some 4
  | 'U' => some 8
  | _ => none

def readEscape : List Char → Option (Char × List Char)
  | [] => none
  | c :: rest =>
    match shortEscape? c, codeWidth? c with
    | some x, _ => some (x, rest)
    | none, some width =>
      if rest.length < width then none
      else (codePoint? (rest.take width)).map fun x => (x, rest.drop width)
    | none, none => none

theorem readEscape_lt {cs rest : List Char} {c : Char} (h : readEscape cs = some (c, rest)) :
    rest.length < cs.length := by
  cases cs with
  | nil => cases h
  | cons d tail =>
    simp only [readEscape] at h
    split at h
    · cases h
      simp
    · split at h
      · cases h
      · obtain ⟨_, _, hx⟩ := Option.map_eq_some_iff.1 h
        cases hx
        simp only [List.length_drop, List.length_cons]
        omega
    · cases h

def readBasic (cs : List Char) : Option (List Char × List Char) :=
  match cs with
  | [] => none
  | c :: rest =>
    if c = '"' then some ([], rest)
    else if c = '\\' then
      match _he : readEscape rest with
      | none => none
      | some (x, rest) => (readBasic rest).map fun (xs, rest) => (x :: xs, rest)
    else if isControl c then none
    else (readBasic rest).map fun (xs, rest) => (c :: xs, rest)
  termination_by cs.length
  decreasing_by
    · have := readEscape_lt _he
      simp only [List.length_cons]
      omega
    · simp

def readLiteral : List Char → Option (List Char × List Char)
  | [] => none
  | c :: rest =>
    if c = '\'' then some ([], rest)
    else if isControl c then none
    else (readLiteral rest).map fun (xs, rest) => (c :: xs, rest)

/-- The end of a string in three quotes: up to two quotes in front of them belong to it. -/
def closing? (quote : Char) (cs : List Char) : Option (List Char × List Char) :=
  match (cs.take 5).takeWhile (· = quote) with
  | [_, _, _] => some ([], cs.drop 3)
  | [_, _, _, _] => some ([quote], cs.drop 4)
  | [_, _, _, _, _] => some ([quote, quote], cs.drop 5)
  | _ => none

def endsLine (cs : List Char) : Bool :=
  match skipBlanks cs with
  | '\n' :: _ => true
  | '\r' :: '\n' :: _ => true
  | _ => false

/-- Reads a string in three double quotes, after these. While `joining`, blanks and line ends are
passed over; all other line ends are kept as they are written. -/
def readBasicLines (joining : Bool) (cs : List Char) : Option (List Char × List Char) :=
  match cs with
  | [] => none
  | c :: rest =>
    if joining && (isBlank c || c = '\n' || startsWithCrlf (c :: rest)) then
      readBasicLines true rest
    else if c = '"' && (closing? '"' (c :: rest)).isSome then closing? '"' (c :: rest)
    else if c = '\\' then
      if endsLine rest then readBasicLines true rest
      else
        match _he : readEscape rest with
        | none => none
        | some (x, rest) => (readBasicLines false rest).map fun (xs, rest) => (x :: xs, rest)
    else if isControl c && c != '\n' && !startsWithCrlf (c :: rest) then none
    else (readBasicLines false rest).map fun (xs, rest) => (c :: xs, rest)
  termination_by cs.length
  decreasing_by
    · simp
    · simp
    · have := readEscape_lt _he
      simp only [List.length_cons]
      omega
    · simp

def readLiteralLines : List Char → Option (List Char × List Char)
  | [] => none
  | c :: rest =>
    if c = '\'' && (closing? '\'' (c :: rest)).isSome then closing? '\'' (c :: rest)
    else if isControl c && c != '\n' && !startsWithCrlf (c :: rest) then none
    else (readLiteralLines rest).map fun (xs, rest) => (c :: xs, rest)

def dropFirstLineEnd : List Char → List Char
  | '\n' :: rest => rest
  | '\r' :: '\n' :: rest => rest
  | cs => cs

def readString : List Char → Option (String × List Char)
  | '"' :: '"' :: '"' :: rest =>
    (readBasicLines false (dropFirstLineEnd rest)).map fun (xs, rest) => (String.ofList xs, rest)
  | '"' :: rest => (readBasic rest).map fun (xs, rest) => (String.ofList xs, rest)
  | '\'' :: '\'' :: '\'' :: rest =>
    (readLiteralLines (dropFirstLineEnd rest)).map fun (xs, rest) => (String.ofList xs, rest)
  | '\'' :: rest => (readLiteral rest).map fun (xs, rest) => (String.ofList xs, rest)
  | _ => none

/-! ## Keys -/

def isBareChar (c : Char) : Bool := c.isAlphanum || c = '_' || c = '-'

def readName (cs : List Char) : Option (String × List Char) :=
  match cs with
  | '"' :: rest => (readBasic rest).map fun (xs, rest) => (String.ofList xs, rest)
  | '\'' :: rest => (readLiteral rest).map fun (xs, rest) => (String.ofList xs, rest)
  | cs =>
    match cs.takeWhile isBareChar with
    | [] => none
    | name => some (String.ofList name, cs.dropWhile isBareChar)

/-- The greatest number of names that a key may have, and of brackets that may be open in a
value. -/
def maxDepth : Nat := 80

def readNames (room : Nat) (cs : List Char) : Option (List String × List Char) :=
  match room with
  | 0 => none
  | room + 1 =>
    match readName (skipBlanks cs) with
    | none => none
    | some (name, rest) =>
      match skipBlanks rest with
      | '.' :: rest => (readNames room rest).map fun (names, rest) => (name :: names, rest)
      | rest => some ([name], rest)

def readKey (cs : List Char) : Option (List String × List Char) := readNames maxDepth cs

end Toml
end HttpCache
