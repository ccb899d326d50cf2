import HttpCache.Number.Binary64

/-!
# HttpCache.Config.Tree

The values of a configuration.

* `Tree` — a value: a scalar, a list, or a table.
* `Tree.modifyAt` — changes the value at a place, making the place if it is not there.
* `Tree.merge` — lays a value over another one: tables are merged key by key, all else replaces.
-/

namespace HttpCache
namespace Config

inductive Tree where
  /-- Nothing has been set. -/
  | absent
  | bool (b : Bool)
  | integer (i : Int)
  | float (x : Binary64)
  | text (s : String)
  | list (items : List Tree)
  | table (entries : List (String × Tree))

inductive Move where
  /-- To the value of a key. -/
  | child (key : String)
  /-- To an item of a list; a negative number counts from the end. -/
  | item (index : Int)
  deriving DecidableEq, Repr

namespace Tree

def entries : Tree → List (String × Tree)
  | table entries => entries
  | _ => []

def items : Tree → List Tree
  | list items => items
  | _ => []

def get? (t : Tree) (key : String) : Option Tree :=
  (t.entries.find? fun entry => entry.1 == key).map (·.2)

/-- Changes the value of a key; a key that is not there is added at the end. -/
def upsert (key : String) (change : Tree → Tree) : List (String × Tree) → List (String × Tree)
  | [] => [(key, change absent)]
  | (name, value) :: rest =>
    if name = key then (name, change value) :: rest
    else (name, value) :: upsert key change rest

/-- Changes an item. A list that is too short grows: at its end, or at its front for a negative
index. -/
def modifyItem (index : Int) (change : Tree → Tree) (items : List Tree) : List Tree :=
  let place := if 0 ≤ index then index else items.length + index
  if place < 0 then
    change absent :: (List.replicate (place.natAbs - 1) absent ++ items)
  else
    let n := place.toNat
    let padded := items ++ List.replicate (n + 1 - items.length) absent
    padded.modify n change

/-- Changes the value at the end of a path. What is in the way is replaced. -/
def modifyAt : List Move → (Tree → Tree) → Tree → Tree
  | [], change, t => change t
  | .child key :: path, change, t => table (upsert key (modifyAt path change) t.entries)
  | .item index :: path, change, t => list (modifyItem index (modifyAt path change) t.items)

mutual

def merge (incoming : Tree) (present : Tree) : Tree :=
  match incoming with
  | table entries => table (mergeEntries entries present.entries)
  | other => other

def mergeEntries (incoming present : List (String × Tree)) : List (String × Tree) :=
  match incoming with
  | [] => present
  | (key, value) :: rest => mergeEntries rest (upsert key (merge value) present)

end

end Tree
end Config
end HttpCache
