import HttpCache.Text.Mark
import HttpCache.Toml.Definition
import HttpCache.Toml.Lexeme
import HttpCache.Toml.Scalar

/-!
# HttpCache.Toml.Document

Whole TOML documents.

* `readValue` — a value: a scalar, a list, or a table in braces.
* `readLines` — headers and keys with values, line by line.
* `document` — the entries of the root table; `none` if the text is not TOML.

No reader takes more steps than there are characters in the text that it reads, so their number is
fuel enough.
-/

namespace HttpCache
namespace Toml

open Config (Tree)

def assignKey (names : List String) (value : Tree) (entries : Entries) : Option Entries :=
  match names.getLast? with
  | none => none
  | some key => assign value key names.dropLast entries

/-- Passes over an equals sign in a table in braces, and over what stands around it. -/
def skipEquals (cs : List Char) : Option (List Char) :=
  match skipTrivia false cs with
  | some ('=' :: rest) => skipTrivia false rest
  | _ => none

mutual

/-- Reads a value; at most `room` brackets and braces may be open in it at once. -/
def readValue (fuel room : Nat) (cs : List Char) : Option (Tree × List Char) :=
  match fuel with
  | 0 => none
  | fuel + 1 =>
    match cs, room with
    | '"' :: _, _ => (readString cs).map fun (s, rest) => (.text s, rest)
    | '\'' :: _, _ => (readString cs).map fun (s, rest) => (.text s, rest)
    | '[' :: rest, room + 1 =>
      (readItems fuel room rest).map fun (items, rest) => (.list items, rest)
    | '{' :: rest, room + 1 =>
      (readMembers fuel room [] rest).map fun (m, rest) => (.table (toTrees m), rest)
    | cs, _ => readScalar cs

def readItems (fuel room : Nat) (cs : List Char) : Option (List Tree × List Char) :=
  match fuel with
  | 0 => none
  | fuel + 1 =>
    match skipTrivia false cs with
    | none => none
    | some (']' :: rest) => some ([], rest)
    | some cs =>
      match readValue fuel room cs with
      | none => none
      | some (value, rest) =>
        match skipTrivia false rest with
        | some (']' :: rest) => some ([value], rest)
        | some (',' :: rest) =>
          (readItems fuel room rest).map fun (values, rest) => (value :: values, rest)
        | _ => none

/-- Reads the keys and values of a table in braces, up to and with the closing brace. Line ends and
comments may stand between all pieces, and a comma after the last value. -/
def readMembers (fuel room : Nat) (entries : Entries) (cs : List Char) :
    Option (Entries × List Char) :=
  match fuel with
  | 0 => none
  | fuel + 1 =>
    match skipTrivia false cs with
    | none => none
    | some ('}' :: rest) => some (entries, rest)
    | some cs =>
      match readMember fuel room entries cs with
      | none => none
      | some (entries, rest) =>
        match skipTrivia false rest with
        | some ('}' :: rest) => some (entries, rest)
        | some (',' :: rest) => readMembers fuel room entries rest
        | _ => none

def readMember (fuel room : Nat) (entries : Entries) (cs : List Char) :
    Option (Entries × List Char) :=
  match fuel with
  | 0 => none
  | fuel + 1 =>
    match readKey cs with
    | none => none
    | some (names, rest) =>
      match (skipEquals rest).bind (readValue fuel room) with
      | none => none
      | some (value, rest) =>
        (assignKey names value entries).map fun entries => (entries, rest)

end

/-- Reads a key and the closing brackets of a header, and the end of its line. -/
def readHeader (closing : List Char) (cs : List Char) : Option (List String × List Char) :=
  match readKey cs with
  | none => none
  | some (names, rest) =>
    if closing.isPrefixOf rest then
      (endLine false (rest.drop closing.length)).map fun rest => (names, rest)
    else none

def openAt (start : String → Entries → Option Entries) (names : List String) (root : Entries) :
    Option Entries :=
  match names.getLast? with
  | none => none
  | some key => within names.dropLast (start key) root

def readBinding (current : List String) (root : Entries) (cs : List Char) :
    Option (Entries × List Char) :=
  match readKey cs with
  | some (names, '=' :: rest) =>
    match readValue cs.length maxDepth (skipBlanks rest) with
    | none => none
    | some (value, rest) =>
      match within current (assignKey names value) root, endLine false rest with
      | some root, some rest => some (root, rest)
      | _, _ => none
  | _ => none

/-- Reads the lines of a document; `current` is the path of the last header. -/
def readLines (fuel : Nat) (current : List String) (root : Entries) (cs : List Char) :
    Option Entries :=
  match fuel with
  | 0 => none
  | fuel + 1 =>
    match skipTrivia false cs with
    | none => none
    | some [] => some root
    | some ('[' :: '[' :: rest) =>
      match readHeader [']', ']'] rest with
      | none => none
      | some (names, rest) =>
        match openAt openItem names root with
        | none => none
        | some root => readLines fuel names root rest
    | some ('[' :: rest) =>
      match readHeader [']'] rest with
      | none => none
      | some (names, rest) =>
        match openAt openTable names root with
        | none => none
        | some root => readLines fuel names root rest
    | some cs =>
      match readBinding current root cs with
      | none => none
      | some (root, rest) => readLines fuel current root rest

/-- The entries of the root table of a document, which may start with a mark of the order of
octets. -/
def document (text : String) : Option (List (String × Tree)) :=
  let cs := (Text.withoutMark text).toList
  (readLines (cs.length + 1) [] [] cs).map toTrees

end Toml
end HttpCache
