import HttpCache.Text.Ascii
import HttpCache.Text.Utf8

/-!
# HttpCache.Text.FormUrl

Query parameters in the form of web forms.

* `pairs` — the decoded parameters of a query, in order of appearance: pieces between `&`, the
  empty ones dropped, each cut at its first `=`.
* `encodePairs` — the canonical spelling of a list of parameters: every pair as `name=value`.

In a component `+` stands for a space and `%XX` for an octet; the octets are read as UTF-8.
-/

namespace HttpCache
namespace FormUrl

open Ascii

/-- Replaces each `%XX` by its octet; a percent sign without two digits stays. -/
def percentDecode : Bytes → Bytes
  | [] => []
  | b :: rest =>
    if b = percent then
      match rest with
      | hi :: lo :: tail =>
        match hexValue? hi, hexValue? lo with
        | some h, some l => UInt8.ofNat (h * 16 + l) :: percentDecode tail
        | _, _ => b :: percentDecode (hi :: lo :: tail)
      | short => b :: short
    else b :: percentDecode rest

def plusToSpace (bs : Bytes) : Bytes := bs.map fun b => if b = plus then space else b

def decodeComponent (bs : Bytes) : String := Utf8.lossy (percentDecode (plusToSpace bs))

/-- Cuts a piece at its first equals sign; without one the value is empty. -/
def splitPair (piece : Bytes) : Bytes × Bytes :=
  (piece.takeWhile (· != equals), (piece.dropWhile (· != equals)).tail)

def pairsOfBytes (query : Bytes) : List (String × String) :=
  ((query.splitOn ampersand).filter (!·.isEmpty)).map fun piece =>
    (decodeComponent (splitPair piece).1, decodeComponent (splitPair piece).2)

def pairs (query : String) : List (String × String) := pairsOfBytes (Text.utf8 query)

/-- The octets that stand for themselves in an encoded component. -/
def isPlain (b : UInt8) : Bool :=
  isAlpha b || isDigit b || b == 42 || b == minus || b == dot || b == 95

def hexDigit (n : Nat) : UInt8 := if n < 10 then UInt8.ofNat (48 + n) else UInt8.ofNat (55 + n)

def encodeByte (b : UInt8) : Bytes :=
  if isPlain b then [b]
  else if b = space then [plus]
  else [percent, hexDigit (b.toNat / 16), hexDigit (b.toNat % 16)]

def encodeComponent (s : String) : Bytes := (Text.utf8 s).flatMap encodeByte

def encodePair (pair : String × String) : Bytes :=
  encodeComponent pair.1 ++ equals :: encodeComponent pair.2

def encodePairsBytes (ps : List (String × String)) : Bytes :=
  [ampersand].intercalate (ps.map encodePair)

def encodePairs (ps : List (String × String)) : String := Utf8.lossy (encodePairsBytes ps)

theorem hexValue?_hexDigit : ∀ n, n < 16 → hexValue? (hexDigit n) = some n := by decide

end FormUrl
end HttpCache
