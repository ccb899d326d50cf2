import HttpCache.Text.Ascii

/-!
# HttpCache.Message.Headers

Header fields as an ordered multimap. Order, repetitions and the spelling of names are kept;
names are looked up without regard to the case of ASCII letters.

* `insert`, `set`, `remove` — add a field at the end, replace all fields of a name by one at the
  end, drop all fields of a name.
* `removes` — whether a removal changes anything.
* `get?`, `getAll`, `contains`, `names` — the views of the list through its names.
-/

namespace HttpCache

structure Headers where
  fields : List (String × String)
  deriving DecidableEq, Repr

namespace Headers

open Ascii

def empty : Headers := ⟨[]⟩

def ofList (fields : List (String × String)) : Headers := ⟨fields⟩

/-- Adds a field after all others. -/
def insert (h : Headers) (name value : String) : Headers := ⟨h.fields ++ [(name, value)]⟩

def append (h : Headers) (fields : List (String × String)) : Headers := ⟨h.fields ++ fields⟩

def remove (h : Headers) (name : String) : Headers :=
  ⟨h.fields.filter fun field => !sameName field.1 name⟩

/-- Makes one field, at the end, the only one of its name. -/
def set (h : Headers) (name value : String) : Headers := (h.remove name).insert name value

def getAll (h : Headers) (name : String) : List String :=
  (h.fields.filter fun field => sameName field.1 name).map (·.2)

def get? (h : Headers) (name : String) : Option String :=
  (h.fields.find? fun field => sameName field.1 name).map (·.2)

def contains (h : Headers) (name : String) : Bool :=
  h.fields.any fun field => sameName field.1 name

/-- Whether a removal leaves fewer fields than there were. -/
def removes (h : Headers) (name : String) : Bool :=
  (h.remove name).fields.length < h.fields.length

/-- The names of a list of fields that do not repeat one already seen. -/
def newNames (seen : List String) : List (String × String) → List String
  | [] => []
  | (name, _) :: rest =>
    if seen.any (sameName · name) then newNames seen rest
    else name :: newNames (seen ++ [name]) rest

/-- Each name once, in the order and the spelling of its first field. -/
def names (h : Headers) : List String := newNames [] h.fields

def size (h : Headers) : Nat := h.fields.length

def isEmpty (h : Headers) : Bool := h.fields.isEmpty

def line (field : String × String) : String := field.1 ++ ": " ++ field.2 ++ "\r\n"

def text (h : Headers) : String := String.join (h.fields.map line)

theorem get?_eq_head? (h : Headers) (name : String) : h.get? name = (h.getAll name).head? := by
  simp [get?, getAll, List.head?_filter]

theorem getAll_insert (h : Headers) (name value other : String) :
    (h.insert name value).getAll other =
      h.getAll other ++ if sameName name other then [value] else [] := by
  simp only [getAll, insert, List.filter_append, List.map_append]
  by_cases hs : sameName name other <;> simp [hs]

end Headers
end HttpCache
