import HttpCache.Store.Basic

/-!
# HttpCache.Store.Inert

Backends that store nothing.

* `Store.disabled` — every call fails.
* `Store.silent` — takes everything and finds nothing.
-/

namespace HttpCache
namespace Store

variable {σ α : Type}

def inert (event : Event) (result : Except CacheError α) : Call σ α :=
  .immediate do
    .report event
    pure result

def disabled : Store σ where
  get key := inert (.inertKey .get key) (.error .disabled)
  set key _ _ := inert (.inertKey .set key) (.error .disabled)
  del keys := inert (.inertKeys keys.length) (.error .disabled)

def silent : Store σ where
  get key := inert (.inertKey .get key) (.error (.notFound key))
  set key _ _ := inert (.inertKey .set key) (.ok ())
  del keys := inert (.inertKeys keys.length) (.ok ())

end Store
end HttpCache
