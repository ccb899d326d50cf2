/-!
# HttpCache.Store.Recency

A bounded list of values by key, the most recently used first.

* `find?` — looks without counting as a use.
* `touch` — makes a key the most recently used.
* `put` — stores a value as the most recently used; the least recently used make room.
* `erase` — drops a key.

The keys are distinct and their number never exceeds the capacity, as long as it starts so
(`WellFormed`).
-/

namespace HttpCache

structure Recency (α : Type) where
  capacity : Nat
  /-- The most recently used first. -/
  entries : List (String × α)
  deriving DecidableEq, Repr

namespace Recency

variable {α : Type}

/-- No values, and room for `capacity` of them; there is room for one at least. -/
def empty (capacity : Nat) : Recency α := ⟨max capacity 1, []⟩

def size (r : Recency α) : Nat := r.entries.length

def isEmpty (r : Recency α) : Bool := r.entries.isEmpty

def keys (r : Recency α) : List String := r.entries.map (·.1)

def find? (r : Recency α) (key : String) : Option α :=
  (r.entries.find? fun entry => entry.1 == key).map (·.2)

def erase (r : Recency α) (key : String) : Recency α :=
  { r with entries := r.entries.filter fun entry => entry.1 != key }

/-- Stores a value as the most recently used one. -/
def put (r : Recency α) (key : String) (value : α) : Recency α :=
  { r with entries := ((key, value) :: (r.erase key).entries).take r.capacity }

def touch (r : Recency α) (key : String) : Recency α :=
  match r.find? key with
  | none => r
  | some value => { r with entries := (key, value) :: (r.erase key).entries }

structure WellFormed (r : Recency α) : Prop where
  nodup : r.keys.Nodup
  bounded : r.entries.length ≤ r.capacity
  positive : 0 < r.capacity

theorem wellFormed_empty (capacity : Nat) : (empty capacity : Recency α).WellFormed :=
  ⟨List.nodup_nil, Nat.zero_le _, by simp only [empty]; omega⟩

end Recency
end HttpCache
