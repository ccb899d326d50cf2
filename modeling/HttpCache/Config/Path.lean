import HttpCache.Config.Tree
import HttpCache.Text.Decimal

/-!
# HttpCache.Config.Path

Paths into a configuration, such as `cache.ttl_secs` or `cache.stale_statuses[0]`.

* `Path.ofText?` — reads a path.
* `Path.ofKey` — the path that a key stands for; a key that is no path is a name of its own.
* `Path.assign` — lays a value over the one at the end of a path.
-/

namespace HttpCache
namespace Config
namespace Path

def isNameChar (c : Char) : Bool := c.isAlphanum || c = '_' || c = '-'

def name? (cs : List Char) : Option (String × List Char) :=
  match cs.takeWhile isNameChar with
  | [] => none
  | name => some (String.ofList name, cs.dropWhile isNameChar)

def isSpace (c : Char) : Bool := c = ' ' || c = '\t'

/-- The number between two brackets, without the blanks around it. -/
def index? (cs : List Char) : Option Int :=
  let body := ((cs.dropWhile isSpace).reverse.dropWhile isSpace).reverse
  match body with
  | '+' :: _ => none
  | body => Decimal.integer? (String.ofList body)

/-- Reads the steps after the first name; `fuel` is at least the number of steps. -/
def movesFrom? (fuel : Nat) (cs : List Char) : Option (List Move) :=
  match fuel, cs with
  | _, [] => some []
  | 0, _ => none
  | fuel + 1, '.' :: cs => do
    let (name, rest) ← name? cs
    let moves ← movesFrom? fuel rest
    pure (.child name :: moves)
  | fuel + 1, '[' :: cs => do
    let index ← index? (cs.takeWhile (· != ']'))
    match cs.dropWhile (· != ']') with
    | [] => none
    | _ :: rest =>
      let moves ← movesFrom? fuel rest
      pure (.item index :: moves)
  | _ + 1, _ => none

def ofText? (s : String) : Option (List Move) := do
  let (name, rest) ← name? s.toList
  let moves ← movesFrom? rest.length rest
  pure (.child name :: moves)

def ofKey (key : String) : List Move := (ofText? key).getD [.child key]

/-- Lays a value over the one that a key leads to. -/
def assign (t : Tree) (binding : String × Tree) : Tree :=
  Tree.modifyAt (ofKey binding.1) binding.2.merge t

end Path
end Config
end HttpCache
