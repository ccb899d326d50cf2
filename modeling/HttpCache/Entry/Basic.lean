import HttpCache.Message.Headers
import HttpCache.Message.Status
import HttpCache.Time

/-!
# HttpCache.Entry.Basic

What a cache keeps of a response: its headers, its body, its status code, and the second from
which it is no longer fresh.

* `Entry.make` — the entry of a response that stays fresh for a span of time.
* `Entry.isFreshAt` — whether the entry may still be served as a hit.
* `Entry.status?` — the status, when the code is a known one.

The arithmetic on the expiration does not wrap (`expiration_make`): a sum beyond the last second
that a time stamp can hold is that last second.
-/

namespace HttpCache

structure Entry where
  headers : Headers
  body : Bytes
  statusCode : UInt16
  /-- The Unix second from which the entry is stale. -/
  expiration : Int64
  deriving DecidableEq, Repr

namespace Entry

/-- The last fresh second plus one, for an entry made at `wall` with time to live `ttl`. -/
def expirationAt (wall : Int) (ttl : Span) : Int := min (unixNow wall + ttl.seconds) maxSeconds

def make (headers : Headers) (body : Bytes) (status : Status) (ttl : Span) (wall : Int) : Entry :=
  { headers, body
    statusCode := UInt16.ofNat status.code
    expiration := Saturating.add (unixWord wall) (Saturating.ofNat ttl.seconds) }

def isFreshAt (e : Entry) (now : Int) : Bool := now < e.expiration.toInt

def status? (e : Entry) : Except UInt16 Status :=
  match Status.ofCode? e.statusCode.toNat with
  | some status => .ok status
  | none => .error e.statusCode

theorem expiration_make (headers : Headers) (body : Bytes) (status : Status) (ttl : Span)
    (wall : Int) :
    (make headers body status ttl wall).expiration.toInt = expirationAt wall ttl := by
  have hmin := Saturating.toInt_minValue
  have hmax := Saturating.toInt_maxValue
  simp only [make, Saturating.toInt_add, toInt_unixWord, Saturating.toInt_ofNat, expirationAt,
    unixNow, maxSeconds]
  omega

end Entry
end HttpCache
