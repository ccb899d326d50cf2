import HttpCache.Message.Method
import HttpCache.Message.Status

/-!
# HttpCache.Event

What layers and backends report while they work.

* `Event` — one constructor for each report.
* `Event.level`, `Event.message`, `Event.fields` — how a report is shown.
-/

namespace HttpCache

inductive Level where
  | debug
  | info
  | warn
  | error
  deriving DecidableEq, Repr

namespace Level

def text : Level → String
  | debug => "DEBUG"
  | info => "INFO"
  | warn => "WARN"
  | error => "ERROR"

end Level

inductive Operation where
  | get
  | set
  | del
  deriving DecidableEq, Repr

namespace Operation

def text : Operation → String
  | get => "get"
  | set => "set"
  | del => "del"

/-- The name under which an inert backend reports the call. -/
def loudText : Operation → String
  | get => "GET"
  | set => "SET"
  | del => "DEL"

end Operation

inductive FieldValue where
  | text (s : String)
  | integer (n : Nat)
  | bool (b : Bool)
  deriving DecidableEq, Repr

inductive Event where
  /-- The cache was left out for a request. -/
  | bypass (method : Method) (path : String)
  /-- A stored value is no entry. -/
  | undecodable (key error : String)
  | hit (key : String)
  | miss (key : String) (staleCandidate : Bool)
  | stored (key : String)
  /-- A stored response was sent in place of a failed one. -/
  | stale (key : String) (status : Status)
  | purged (key : String)
  /-- A backend had nothing or is turned off. -/
  | skipped (operation : Operation) (key error : String)
  | failed (operation : Operation) (key error : String)
  /-- A value was found past its time and dropped. -/
  | evicted (key : String)
  /-- An inert backend was asked about one key. -/
  | inertKey (operation : Operation) (key : String)
  /-- An inert backend was asked to delete keys. -/
  | inertKeys (count : Nat)
  | served (app : String) (method : Method) (path host : String) (status : Status) (cached : Bool)
  deriving DecidableEq, Repr

namespace Event

open FieldValue (integer)

def level : Event → Level
  | undecodable _ _ => .error
  | stale _ _ | failed _ _ _ => .warn
  | served _ _ _ _ _ _ => .info
  | _ => .debug

def message : Event → String
  | bypass _ _ => "cache not consulted"
  | undecodable _ _ => "failed to decode cached response"
  | hit _ => "serving cached response"
  | miss _ _ => "cache miss, executing handler"
  | stored _ => "response cached"
  | stale _ _ => "handler failed, serving stale response"
  | purged _ => "cached response purged"
  | skipped _ _ _ => "cache backend skipped"
  | failed _ _ _ => "cache backend call failed"
  | evicted _ => "expired entry evicted on read"
  | inertKey _ _ | inertKeys _ => "noop operation"
  | served _ _ _ _ _ _ => "route handler"

/-- The fields that every report of a cache layer starts with. -/
def cacheField : String × FieldValue := ("cache", .text "response")

def outcome (name : String) : List (String × FieldValue) := [cacheField, ("outcome", .text name)]

def backendFields (operation : Operation) (key error : String) : List (String × FieldValue) :=
  [cacheField, ("op", .text operation.text), ("key", .text key), ("error", .text error)]

def fields : Event → List (String × FieldValue)
  | bypass method path => outcome "bypass" ++ [("method", .text method.text), ("path", .text path)]
  | undecodable key error => [cacheField, ("key", .text key), ("error", .text error)]
  | hit key => outcome "hit" ++ [("key", .text key)]
  | miss key staleCandidate =>
    outcome "miss" ++ [("key", .text key), ("stale_candidate", .bool staleCandidate)]
  | stored key => outcome "store" ++ [("key", .text key)]
  | stale key status =>
    outcome "stale" ++ [("key", .text key), ("status", integer status.code)]
  | purged key => outcome "purge" ++ [("key", .text key)]
  | skipped operation key error => backendFields operation key error
  | failed operation key error => backendFields operation key error
  | evicted key => [("key", .text key)]
  | inertKey operation key => [("operation", .text operation.loudText), ("key", .text key)]
  | inertKeys count => [("operation", .text Operation.del.loudText), ("count", integer count)]
  | served app method path host status cached =>
    [("app", .text app), ("method", .text method.text), ("path", .text path),
      ("host", .text host), ("status", integer status.code), ("cached", .bool cached)]

end Event
end HttpCache
