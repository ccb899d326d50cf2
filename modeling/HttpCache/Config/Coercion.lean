import HttpCache.Config.Tree
import HttpCache.Number.Shortest

/-!
# HttpCache.Config.Coercion

Reading a configuration value as a value of a wanted type.

* `Tree.toBool?` — numbers and some words are truth values too.
* `Tree.toNatural?` — truth values, some words, and rounded fractions are numbers too.
* `Tree.toText?` — every scalar has a text.
* `Tree.toList?` — only lists are lists.

The value `none` means that the value cannot be read so.
-/

namespace HttpCache
namespace Config
namespace Tree

def lowered (s : String) : String := String.ofList (s.toList.map Char.toLower)

def wordBool? (s : String) : Option Bool :=
  if ["true", "on", "yes"].contains (lowered s) then some true
  else if ["false", "off", "no"].contains (lowered s) then some false
  else none

def toBool? : Tree → Option Bool
  | bool b => some b
  | integer i => some (i != 0)
  | float x => some x.isNonzero
  | text s => if s = "1" then some true else if s = "0" then some false else wordBool? s
  | _ => none

def maxNatural : Nat := 0xFFFFFFFFFFFFFFFF

/-- The number before its limit is looked at. -/
def naturalValue? : Tree → Option Nat
  | integer i => if 0 ≤ i then some i.toNat else none
  | bool b => some b.toNat
  | float x => some (x.roundAway maxNatural)
  | text s =>
    match wordBool? s with
    | some b => some b.toNat
    | none => Decimal.natural? maxNatural s
  | _ => none

def toNatural? (limit : Nat) (t : Tree) : Option Nat := t.naturalValue?.filter (· ≤ limit)

def toText? : Tree → Option String
  | text s => some s
  | bool b => some (if b then "true" else "false")
  | integer i => some (Decimal.integerText i)
  | float x => some x.positional
  | _ => none

def toList? {α : Type} (read : Tree → Option α) : Tree → Option (List α)
  | list items => items.mapM read
  | _ => none

def toOption? {α : Type} (read : Tree → Option α) : Tree → Option (Option α)
  | absent => some none
  | t => (read t).map some

end Tree
end Config
end HttpCache
