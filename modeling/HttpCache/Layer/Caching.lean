import HttpCache.Entry.Codec
import HttpCache.Entry.Replay
import HttpCache.Message.Problem
import HttpCache.Pipeline
import HttpCache.Policy
import HttpCache.Sink.Capture
import HttpCache.Store.Basic

/-!
# HttpCache.Layer.Caching

The layer that answers from stored responses.

* A request that turns the cache off, or whose method is not cached, passes through.
* A fresh stored response is the answer; a stored value that cannot be decoded is an error.
* Otherwise the layers below answer. An allowed status is stored. Any other one purges the key,
  and if it counts as failed the stored response that was found, even a stale one, takes its place.

A failure of the backend is reported and otherwise ignored.
-/

namespace HttpCache

structure Caching (σ : Type) where
  clock : Clock σ
  store : Store σ
  policy : Policy

namespace Caching

variable {σ : Type}

/-- A cache layer whose policy has no empty lists and no zero times to live. -/
def make (clock : Clock σ) (store : Store σ) (policy : Policy) : Caching σ :=
  ⟨clock, store, policy.normalized⟩

def bypasses (layer : Caching σ) (c : Context) : Bool :=
  !c.useCache || !layer.policy.allowsMethod c.request.method

def keyOf (layer : Caching σ) (r : Request) : String := Key.ofRequest layer.policy.keyPrefix r

/-- Makes a call of the backend and waits no longer than the policy allows. -/
def await {α : Type} (layer : Caching σ) (operation : Operation) (call : Call σ α) :
    Act σ (Except CacheError α) :=
  call.within layer.clock layer.policy.backendTimeout operation

def softFailure (operation : Operation) (key : String) (e : CacheError) : Event :=
  match e with
  | .notFound _ | .disabled => .skipped operation key e.message
  | _ => .failed operation key e.message

/-- The stored response under a key; a backend without one, or a failing one, gives none. -/
def lookup (layer : Caching σ) (key : String) : Act σ (Except EntryError (Option Entry)) := do
  match ← layer.await .get (layer.store.get key) with
  | .error e => do
    .report (softFailure .get key e)
    pure (.ok none)
  | .ok data =>
    match Entry.decode data with
    | .error e => do
      .report (.undecodable key e.message)
      pure (.error e)
    | .ok entry => pure (.ok (some entry))

def save (layer : Caching σ) (key : String) (entry : Entry) : Act σ Unit := do
  match ← layer.await .set (layer.store.set key entry.encode layer.policy.staleTtl) with
  | .error e => .report (softFailure .set key e)
  | .ok () => .report (.stored key)

def purge (layer : Caching σ) (key : String) : Act σ Unit := do
  match ← layer.await .del (layer.store.del [key]) with
  | .error e => .report (softFailure .del key e)
  | .ok () => .report (.purged key)

/-- An answer of the layers below, captured in front of an empty buffer. A buffer takes all that
is written to it, so nothing can fail here. -/
def captured (layer : Caching σ) (response : Response) : Capture Buffer :=
  (response.replay
    (Capture.start Buffer.empty layer.policy.useStale layer.policy.staleStatuses)).2

def released (capture : Capture Buffer) : Capture Buffer := capture.release.2

/-- The stored response in place of a failed one, none of whose headers are kept. -/
def staleAnswer (entry : Entry) (capture : Capture Buffer) : Response :=
  (entry.replay .replace { capture.inner with headers := .empty }).2.toResponse

def keep (layer : Caching σ) (key : String) (status : Status) (capture : Capture Buffer) :
    Act σ Response := do
  let sent := released capture
  let now ← .read layer.clock.wall
  layer.save key (.make (Sink.headers sent) sent.takeBuffer.1 status layer.policy.ttl now)
  pure sent.inner.toResponse

/-- Chooses between a failed answer and the stored one, and purges the key. -/
def discard (layer : Caching σ) (key : String) (candidate : Option Entry) (status : Status)
    (capture : Capture Buffer) : Act σ Response := do
  let response ← match candidate.filter fun _ => layer.policy.isStaleTrigger status with
    | some entry => do
      .report (.stale key status)
      pure (staleAnswer entry capture)
    | none => pure (released capture).inner.toResponse
  layer.purge key
  pure response

def conclude (layer : Caching σ) (key : String) (candidate : Option Entry) (response : Response) :
    Act σ Response :=
  let capture := layer.captured response
  let status := capture.status.getD .ok
  if layer.policy.allowsStatus status then layer.keep key status capture
  else layer.discard key candidate status capture

def serve (layer : Caching σ) (key : String) (candidate : Option Entry) (c : Context) :
    Act σ (Step σ) := do
  let now ← .read fun s => unixNow (layer.clock.wall s)
  match candidate.filter (·.isFreshAt now) with
  | some entry => do
    .report (.hit key)
    pure (.answer entry.toResponse)
  | none => do
    .report (.miss key candidate.isSome)
    pure (.forward c (layer.conclude key candidate))

def toLayer (layer : Caching σ) : Layer σ := fun c => do
  let c := c.fromRequest
  if layer.bypasses c then do
    .report (.bypass c.request.method c.request.path)
    pure (.forward c pure)
  else do
    let key := layer.keyOf c.request
    match ← layer.lookup key with
    | .error e => pure (.answer (Problem.respond .internalServerError e.message))
    | .ok candidate => layer.serve key candidate c

end Caching
end HttpCache
