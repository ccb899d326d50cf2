import HttpCache.Config.Tree

/-!
# HttpCache.Toml.Definition

The tables of a document while they are being defined. What has been defined once must not be
defined again, and how a table came to be decides what may still be added to it.

* `Node` — a value that is complete, a table, or a list of tables.
* `assign` — gives a value to a key with points.
* `openTable`, `openItem` — the tables that a header in one or in two pairs of brackets starts.
* `within` — works on the table that the last header started.
-/

namespace HttpCache
namespace Toml

open Config (Tree)

inductive Origin where
  /-- By a header of its own. -/
  | header
  /-- By the header of a table inside it. -/
  | passing
  /-- By a key with points, or such a key has led through it. -/
  | dotted
  deriving DecidableEq, Repr

inductive Node where
  | leaf (value : Tree)
  | table (origin : Origin) (entries : List (String × Node))
  | tables (items : List (List (String × Node)))

/-- The entries of a table in the order of their definition. -/
abbrev Entries := List (String × Node)

mutual

def Node.toTree : Node → Tree
  | .leaf value => value
  | .table _ entries => .table (toTrees entries)
  | .tables items => .list (itemTrees items)

def toTrees : List (String × Node) → List (String × Tree)
  | [] => []
  | (key, node) :: rest => (key, node.toTree) :: toTrees rest

def itemTrees : List (List (String × Node)) → List Tree
  | [] => []
  | entries :: rest => .table (toTrees entries) :: itemTrees rest

end

def find? (entries : Entries) (key : String) : Option Node :=
  (entries.find? fun entry => entry.1 == key).map (·.2)

/-- Puts a node in the place of the one with the same key, or at the end. -/
def put (key : String) (node : Node) : Entries → Entries
  | [] => [(key, node)]
  | (name, old) :: rest =>
    if name = key then (name, node) :: rest else (name, old) :: put key node rest

def onLast (change : Entries → Option Entries) (items : List Entries) : Option (List Entries) :=
  match items.getLast? with
  | none => none
  | some last => (change last).map fun last => items.dropLast ++ [last]

/-- Works on the table that a path leads to; tables on the way that are missing are made. Of a
list of tables the last one counts. -/
def within : List String → (Entries → Option Entries) → Entries → Option Entries
  | [], change, entries => change entries
  | key :: path, change, entries =>
    match find? entries key with
    | none => (within path change []).map fun inner => put key (.table .passing inner) entries
    | some (.table origin inner) =>
      (within path change inner).map fun inner => put key (.table origin inner) entries
    | some (.tables items) =>
      (onLast (within path change) items).map fun items => put key (.tables items) entries
    | some (.leaf _) => none

/-- Whether a key with points may lead through a table. It then counts as one that comes from such a
key, so that no header can start it any more. -/
def isOpen (origin : Origin) : Bool := origin != .header

def assign (value : Tree) (key : String) : List String → Entries → Option Entries
  | [], entries =>
    if (find? entries key).isSome then none else some (put key (.leaf value) entries)
  | step :: path, entries =>
    match find? entries step with
    | none => (assign value key path []).map fun inner => put step (.table .dotted inner) entries
    | some (.table origin inner) =>
      if isOpen origin then
        (assign value key path inner).map fun inner => put step (.table .dotted inner) entries
      else none
    | some (.tables items) =>
      if path.isEmpty then none
      else (onLast (assign value key path) items).map fun items => put step (.tables items) entries
    | some (.leaf _) => none

def openTable (key : String) (entries : Entries) : Option Entries :=
  match find? entries key with
  | none => some (put key (.table .header []) entries)
  | some (.table .passing inner) => some (put key (.table .header inner) entries)
  | _ => none

def openItem (key : String) (entries : Entries) : Option Entries :=
  match find? entries key with
  | none => some (put key (.tables [[]]) entries)
  | some (.tables items) => some (put key (.tables (items ++ [[]])) entries)
  | _ => none

end Toml
end HttpCache
