import HttpCache.Key

/-!
# HttpCache.Context

A request on its way through the layers, with what the layers leave for those below them.

* `Extensions` — at most one value of each kind.
* `Context.useCache` — whether cache layers may serve or store the request.
* `Context.fromRequest` — honours a query that turns the cache off.
-/

namespace HttpCache

inductive ExtensionKind where
  /-- The mark that keeps cache layers away from the request. -/
  | noCache
  | number
  | tag
  | text
  deriving DecidableEq, Repr

abbrev ExtensionKind.Value : ExtensionKind → Type
  | noCache => Unit
  | number => Nat
  | tag => Int
  | text => String

structure Extensions where
  get? : (kind : ExtensionKind) → Option kind.Value

namespace Extensions

def empty : Extensions := ⟨fun _ => none⟩

def put (x : Extensions) (kind : ExtensionKind) (slot : Option kind.Value) : Extensions :=
  ⟨fun other => if h : kind = other then h ▸ slot else x.get? other⟩

/-- Leaves a value, in place of an earlier one of the same kind. -/
def insert (x : Extensions) (kind : ExtensionKind) (value : kind.Value) : Extensions :=
  x.put kind (some value)

def contains (x : Extensions) (kind : ExtensionKind) : Bool := (x.get? kind).isSome

def remove (x : Extensions) (kind : ExtensionKind) : Extensions := x.put kind none

@[ext] theorem ext {x y : Extensions} (h : ∀ kind, x.get? kind = y.get? kind) : x = y := by
  cases x
  cases y
  congr
  exact funext h

@[simp] theorem get?_put_same (x : Extensions) (kind : ExtensionKind) (slot : Option kind.Value) :
    (x.put kind slot).get? kind = slot := by
  simp [put]

theorem get?_put_of_ne (x : Extensions) {kind other : ExtensionKind} (slot : Option kind.Value)
    (h : kind ≠ other) : (x.put kind slot).get? other = x.get? other := by
  simp [put, h]

end Extensions

structure Context where
  request : Request
  extensions : Extensions

namespace Context

def ofRequest (request : Request) : Context := { request, extensions := .empty }

def withNoCache (c : Context) : Context :=
  { c with extensions := c.extensions.insert .noCache () }

def useCache (c : Context) : Bool := !c.extensions.contains .noCache

def fromRequest (c : Context) : Context :=
  if c.request.queryParam? Key.noCacheParam = some "false" then c.withNoCache else c

@[simp] theorem request_withNoCache (c : Context) : c.withNoCache.request = c.request := rfl

@[simp] theorem useCache_withNoCache (c : Context) : c.withNoCache.useCache = false := by
  simp [useCache, withNoCache, Extensions.contains, Extensions.insert]

end Context
end HttpCache
