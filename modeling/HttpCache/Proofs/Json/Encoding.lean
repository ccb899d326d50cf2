import HttpCache.Proofs.Json.Meaning
import HttpCache.Proofs.Json.Written

/-!
# HttpCache.Proofs.Json.Encoding

An encoded value means that value.

* `Value.named` — a value with the names of its members in the places of the keys.
* `Value.tree` — the tree of what is written; a key has its name in it.
* `flatten_tree`, `value?_tree` — its tokens are what is written, and it stands for the value.
* `means_of_encode` — so whoever reads the octets of a value finds this value and no other.
-/

namespace HttpCache
namespace Json

/-! ## Integers -/

theorem integer_ofInt (i : Int) : (Numeral.ofInt i).integer = i := by
  simp only [Numeral.integer, Numeral.ofInt, octets_ofNat, digitsValue_natural,
    decide_eq_true_eq]
  split <;> omega

theorem int?_ofInt (i : Int) : (Numeral.ofInt i).int? = some i :=
  congrArg some (integer_ofInt i)

/-! ## Values as they are written -/

namespace Value

/-- The name of a member; a value that is no name is never written. -/
def name (key : Value) : String := key.keyText?.getD ""

mutual

def named : Value → Value
  | null => null
  | bool b => bool b
  | number n => number n
  | text s => text s
  | list items => list (namedItems items)
  | map entries => map (namedEntries entries)

def namedItems : List Value → List Value
  | [] => []
  | item :: items => item.named :: namedItems items

def namedEntries : List (Value × Value) → List (Value × Value)
  | [] => []
  | (key, value) :: entries => (text key.name, value.named) :: namedEntries entries

end

mutual

def tree : Value → Tree
  | null => .null
  | bool b => .bool b
  | number n => .number (.ofInt n)
  | text s => .text (.ofString s)
  | list items => .list (itemTrees items)
  | map entries => .object ((entryTrees entries).map fun m => (.ofString m.1, m.2))

def itemTrees : List Value → List Tree
  | [] => []
  | item :: items => item.tree :: itemTrees items

def entryTrees : List (Value × Value) → List (String × Tree)
  | [] => []
  | (key, value) :: entries => (key.name, value.tree) :: entryTrees entries

end

end Value

open Value

mutual

theorem flatten_tree (v : Value) {data : Bytes} (h : v.encode = .ok data) :
    v.tree.tokens.flatten = data := by
  cases v with
  | null => cases h; decide
  | bool b => cases h; cases b <;> decide
  | number n =>
    cases h
    rw [tree, Tree.tokens, List.flatten_singleton, octets_ofInt]
  | text s =>
    cases h
    rw [tree, Tree.tokens, List.flatten_singleton, token_ofString]
  | list items =>
    rw [encode] at h
    split at h
    · cases h
    · rename_i encoded hitems
      cases h
      rw [tree, flatten_list, flatten_itemTrees items hitems]
  | map entries =>
    rw [encode] at h
    split at h
    · cases h
    · rename_i encoded hentries
      cases h
      rw [tree, flatten_object, flatten_entryTrees entries hentries]

theorem flatten_itemTrees (items : List Value) {encoded : List Bytes}
    (h : encodeItems items = .ok encoded) :
    (itemTrees items).map (fun item => item.tokens.flatten) = encoded := by
  cases items with
  | nil => cases h; rfl
  | cons item items =>
    rw [encodeItems] at h
    split at h
    · cases h
    · rename_i first hitem
      split at h
      · cases h
      · rename_i others hitems
        cases h
        rw [itemTrees, List.map_cons, flatten_tree item hitem, flatten_itemTrees items hitems]

theorem flatten_entryTrees (entries : List (Value × Value)) {encoded : List (String × Bytes)}
    (h : encodeEntries entries = .ok encoded) :
    (entryTrees entries).map (fun m => (m.1, m.2.tokens.flatten)) = encoded := by
  cases entries with
  | nil => cases h; rfl
  | cons entry entries =>
    obtain ⟨key, value⟩ := entry
    rw [encodeEntries] at h
    split at h
    · cases h
    · rename_i text hkey
      split at h
      · cases h
      · rename_i first hvalue
        split at h
        · cases h
        · rename_i others hentries
          cases h
          rw [entryTrees, List.map_cons, flatten_tree value hvalue,
            flatten_entryTrees entries hentries, name, hkey, Option.getD_some]

end

mutual

theorem value?_tree (v : Value) : v.tree.value? = some v.named := by
  cases v with
  | null => rfl
  | bool b => rfl
  | number n => rw [tree, Tree.value?, int?_ofInt, Option.map_some, named]
  | text s => rw [tree, Tree.value?, text?_ofString, Option.map_some, named]
  | list items => rw [tree, Tree.value?, itemValues?_itemTrees items, Option.map_some, named]
  | map entries => rw [tree, Tree.value?, memberValues?_entryTrees entries, Option.map_some, named]

theorem itemValues?_itemTrees (items : List Value) :
    Tree.itemValues? (itemTrees items) = some (namedItems items) := by
  cases items with
  | nil => rfl
  | cons item items =>
    rw [itemTrees, Tree.itemValues?, value?_tree item, itemValues?_itemTrees items]
    rfl

theorem memberValues?_entryTrees (entries : List (Value × Value)) :
    Tree.memberValues? ((entryTrees entries).map fun m => (.ofString m.1, m.2)) =
      some (namedEntries entries) := by
  cases entries with
  | nil => rfl
  | cons entry entries =>
    obtain ⟨key, value⟩ := entry
    rw [entryTrees, List.map_cons, Tree.memberValues?, text?_ofString, value?_tree value,
      memberValues?_entryTrees entries]
    rfl

end

/-- A key may have been a number or a truth value; what is read is its text. -/
theorem means_of_encode {v : Value} {data : Bytes} (h : v.encode = .ok data) :
    Means data v.named := by
  have hspaced := spaced_flatten v.tree.tokens
  rw [flatten_tree v h] at hspaced
  exact means_of_spaced hspaced (value?_tree v)

end Json
end HttpCache
