import HttpCache.Store.Basic
import HttpCache.Store.Recency

/-!
# HttpCache.Store.Memory

A backend in memory. The least recently used values make room for new ones; a value past its time
is dropped when it is next read.

* `Memory` — the stored values and the clock that their times are measured by.
* `Memory.fetch`, `Memory.keep`, `Memory.drop` — the three calls.
* `Store.memory` — the backend.
-/

namespace HttpCache

structure Stored where
  data : Bytes
  /-- The time from which the value is dead; `none` if no clock reaches it. -/
  deadline : Option Span
  deriving DecidableEq, Repr

namespace Stored

def isLiveAt (v : Stored) (now : Span) : Bool :=
  match v.deadline with
  | none => true
  | some deadline => now < deadline

end Stored

structure Memory where
  values : Recency Stored
  now : Span
  deriving DecidableEq, Repr

namespace Memory

def defaultCapacity : Nat := 1024

/-- The first second that a clock does not reach. -/
def horizon : Nat := 0x8000000000000000

def empty (capacity : Nat) : Memory := ⟨.empty capacity, .zero⟩

def elapse (span : Span) (m : Memory) : Memory := { m with now := m.now + span }

def deadline (m : Memory) (ttl : Span) : Option Span :=
  if (m.now + ttl).seconds < horizon then some (m.now + ttl) else none

/-- The live octets under a key, which are then the most recently used. -/
def fetch (key : String) : Act Memory (Except CacheError Bytes) := fun m =>
  match m.values.find? key with
  | none => ⟨.error (.notFound key), m, []⟩
  | some v =>
    if v.isLiveAt m.now then ⟨.ok v.data, { m with values := m.values.touch key }, []⟩
    else ⟨.error (.notFound key), { m with values := m.values.erase key }, [.evicted key]⟩

def keep (key : String) (data : Bytes) (ttl : Span) : Act Memory (Except CacheError Unit) :=
  fun m => ⟨.ok (), { m with values := m.values.put key ⟨data, m.deadline ttl⟩ }, []⟩

def drop (keys : List String) : Act Memory (Except CacheError Unit) := fun m =>
  ⟨.ok (), { m with values := keys.foldl Recency.erase m.values }, []⟩

end Memory

def Store.memory : Store Memory where
  get key := .immediate (Memory.fetch key)
  set key data ttl := .immediate (Memory.keep key data ttl)
  del keys := .immediate (Memory.drop keys)

end HttpCache
