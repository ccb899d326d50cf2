import HttpCache.Act
import HttpCache.Text.Bytes

/-!
# HttpCache.Store.Basic

Backends: stores of octets by key, with a time to live.

* `Call` — a call of a backend: what happens when it is made, how long it takes, and what happens
  when it comes to its end.
* `Call.within` — waits for a call, but no longer than a limit.
* `Store` — the three calls of a backend.
* `Store.prefixed` — a backend behind a fixed beginning of all keys.
-/

namespace HttpCache

inductive CacheError where
  | notFound (key : String)
  | disabled
  | unavailable (reason : String)
  /-- The call was given up after the longest wait. -/
  | timeout (operation : Operation) (limit : Span)
  deriving DecidableEq, Repr

namespace CacheError

def message : CacheError → String
  | notFound key => "no cached value under key `" ++ key ++ "`"
  | disabled => "cache backend is disabled"
  | unavailable reason => "cache backend unavailable: " ++ reason
  | timeout operation limit => "cache " ++ operation.text ++ " timed out after " ++ limit.text

/-- Whether nothing is stored, as opposed to a fault. -/
def isNotFound : CacheError → Bool
  | notFound _ => true
  | _ => false

end CacheError

structure Call (σ α : Type) where
  /-- Makes the call; the value is the time until its end. -/
  start : Act σ Span
  finish : Act σ (Except CacheError α)

namespace Call

variable {σ τ α : Type}

def immediate (x : Act σ (Except CacheError α)) : Call σ α := ⟨pure .zero, x⟩

def on (part : Part σ τ) (call : Call τ α) : Call σ α :=
  ⟨call.start.on part, call.finish.on part⟩

/-- Lets time pass, if there is any to pass. -/
def wait (clock : Clock σ) (span : Span) : Act σ Unit :=
  if span = .zero then pure () else .change (clock.elapse span)

def run (clock : Clock σ) (call : Call σ α) : Act σ (Except CacheError α) := do
  let delay ← call.start
  wait clock delay
  call.finish

/-- Makes a call and waits for its end, unless that takes longer than the limit: then the call is
given up when the limit is reached. -/
def within (clock : Clock σ) (limit : Option Span) (operation : Operation) (call : Call σ α) :
    Act σ (Except CacheError α) :=
  match limit with
  | none => call.run clock
  | some limit => do
    let delay ← call.start
    if limit < delay then do
      wait clock limit
      pure (.error (.timeout operation limit))
    else do
      wait clock delay
      call.finish

end Call

structure Store (σ : Type) where
  get : String → Call σ Bytes
  /-- Stores octets under a key, for at most a span of time. -/
  set : String → Bytes → Span → Call σ Unit
  /-- Removes keys; one that is missing is no failure. -/
  del : List String → Call σ Unit

namespace Store

variable {σ τ : Type}

def on (part : Part σ τ) (store : Store τ) : Store σ where
  get key := (store.get key).on part
  set key data ttl := (store.set key data ttl).on part
  del keys := (store.del keys).on part

def prefixed (start : String) (store : Store σ) : Store σ where
  get key := store.get (start ++ key)
  set key data ttl := store.set (start ++ key) data ttl
  del keys := store.del (keys.map (start ++ ·))

end Store
end HttpCache
