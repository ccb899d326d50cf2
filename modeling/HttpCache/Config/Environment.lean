import HttpCache.Config.Tree
import HttpCache.Number.Reading

/-!
# HttpCache.Config.Environment

Settings from environment variables. Two underscores in a name stand for a step into a table.

* `Environment.key?` — the path that the name of a variable stands for.
* `Environment.value` — what the text of a variable stands for.
* `Environment.bindings` — the settings of all variables that concern this program.
-/

namespace HttpCache
namespace Config
namespace Environment

/-- How the names of all variables of this program begin, in lower case. -/
def start : List Char := "stash__".toList

def listKeys : List String :=
  ["cache.allowed_methods", "cache.allowed_statuses", "cache.stale_statuses"]

/-- The Kelvin sign, whose lower case is an ASCII letter. -/
def kelvin : Char := Char.ofNat 0x212A

/-- Lower case, as far as ASCII letters come of it. -/
def lowerChar (c : Char) : Char := if c = kelvin then 'k' else c.toLower

/-- A name with a point in place of each pair of underscores. -/
def pointed : List Char → List Char
  | '_' :: '_' :: rest => '.' :: pointed rest
  | c :: rest => c :: pointed rest
  | [] => []

/-- The path that a variable sets, if it is one of this program. -/
def key? (name : String) : Option String :=
  let lower := name.toList.map lowerChar
  if start.isPrefixOf lower then some (String.ofList (pointed (lower.drop start.length)))
  else none

def items (s : String) : List Tree :=
  (s.toList.splitOn ',').map fun item => .text (String.ofList item)

/-- What the text of a variable stands for: a truth value, a number, a list, or itself. -/
def value (key text : String) : Tree :=
  let lower := text.toList.map Char.toLower
  if lower = "true".toList then .bool true
  else if lower = "false".toList then .bool false
  else
    match Decimal.integer? text, Binary64.ofText? text with
    | some i, _ => .integer i
    | none, some x => .float x
    | none, none => if listKeys.contains key then .list (items text) else .text text

def bindings (vars : List (String × String)) : List (String × Tree) :=
  vars.filterMap fun v => (key? v.1).map fun key => (key, value key v.2)

end Environment
end Config
end HttpCache
