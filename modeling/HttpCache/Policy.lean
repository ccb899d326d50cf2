import HttpCache.Message.Method
import HttpCache.Message.Status
import HttpCache.Time

/-!
# HttpCache.Policy

What a cache layer may store and serve, and for how long.

* `Policy.default` — the values of all that is not given.
* `Policy.normalized` — a policy without empty lists and zero times to live.
* `allowsMethod`, `allowsStatus`, `isStaleTrigger` — the questions the layer asks.
-/

namespace HttpCache

structure Policy where
  allowedMethods : List Method
  allowedStatuses : List Status
  keyPrefix : String
  /-- How long a stored response is a hit. -/
  ttl : Span
  /-- Whether a stored response may stand in for a failed one. -/
  useStale : Bool
  staleStatuses : List Status
  /-- How long a backend keeps a stored response. -/
  staleTtl : Span
  backendTimeout : Option Span
  deriving DecidableEq, Repr

namespace Policy

protected def default : Policy where
  allowedMethods := [.get, .head]
  allowedStatuses := [.ok]
  keyPrefix := ""
  ttl := .ofSeconds 900
  useStale := false
  staleStatuses := [.internalServerError]
  staleTtl := .ofSeconds 86400
  backendTimeout := none

def orList {α : Type} (given fallback : List α) : List α := if given.isEmpty then fallback else given

def orSpan (given fallback : Span) : Span := if given = .zero then fallback else given

def normalized (p : Policy) : Policy :=
  { p with
    allowedMethods := orList p.allowedMethods Policy.default.allowedMethods
    allowedStatuses := orList p.allowedStatuses Policy.default.allowedStatuses
    ttl := orSpan p.ttl Policy.default.ttl
    staleStatuses := orList p.staleStatuses Policy.default.staleStatuses
    staleTtl := orSpan p.staleTtl Policy.default.staleTtl }

def allowsMethod (p : Policy) (method : Method) : Bool := p.allowedMethods.contains method

def allowsStatus (p : Policy) (status : Status) : Bool := p.allowedStatuses.contains status

def isStaleTrigger (p : Policy) (status : Status) : Bool :=
  p.useStale && p.staleStatuses.contains status

end Policy
end HttpCache
