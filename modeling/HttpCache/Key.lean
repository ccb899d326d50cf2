import HttpCache.Message.Request

/-!
# HttpCache.Key

Keys under which responses are stored.

* `Key.ofQuery` — the prefix, the path, and the canonical spelling of the parameters that matter.
* `Key.ofRequest` — the key of a request.
* `Key.join` — one key out of several parts, whatever their order.

Parameters are compared by their decoded names. The sort by name is stable: the values of a
repeated name keep their order.
-/

namespace HttpCache
namespace Key

def noCacheParam : String := "cache"

/-- The parameters that do not change what a request returns. -/
def ignoredParams : List String := ["apiKey", noCacheParam]

def isRetained (pair : String × String) : Bool := !ignoredParams.contains pair.1

/-- The order by name; texts compare by code points, as their UTF-8 octets do. -/
def byName (a b : String × String) : Bool := a.1 ≤ b.1

/-- The parameters that matter, sorted by name. -/
def canonicalParams (params : List (String × String)) : List (String × String) :=
  (params.filter isRetained).mergeSort byName

def canonicalQuery (params : List (String × String)) : String :=
  FormUrl.encodePairs (canonicalParams params)

def ofParams (keyPrefix path : String) (params : List (String × String)) : String :=
  let canonical := canonicalQuery params
  keyPrefix ++ path ++ (if canonical.isEmpty then "" else "?" ++ canonical)

def ofQuery (keyPrefix path : String) (query : Option String) : String :=
  ofParams keyPrefix path (FormUrl.pairs (query.getD ""))

def ofRequest (keyPrefix : String) (r : Request) : String := ofParams keyPrefix r.path r.params

/-- One key out of several parts, independent of their order. -/
def join (parts : List String) : String :=
  ";".intercalate (parts.mergeSort fun a b => a ≤ b)

end Key
end HttpCache
