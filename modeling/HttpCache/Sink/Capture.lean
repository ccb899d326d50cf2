import HttpCache.Sink.Basic

/-!
# HttpCache.Sink.Capture

A sink in front of another one that remembers what flows through it, and holds a failed response
back while a stored one may still take its place.

* `Capture.isWithholding` — whether status and body are held back: the committed status is one of
  the triggers, the fallback is on, and nothing has been released.
* `Capture.release` — sends on what was held back; from then on everything flows.
* `Capture.takeBuffer` — takes the octets remembered so far.

Headers are always those of the sink behind it.
-/

namespace HttpCache

structure Capture (τ : Type) where
  inner : τ
  buffer : Bytes
  status : Option Status
  useStale : Bool
  triggers : List Status
  released : Bool
  deriving DecidableEq, Repr

namespace Capture

variable {τ : Type} [Sink τ]

def start (inner : τ) (useStale : Bool) (triggers : List Status) : Capture τ :=
  { inner, buffer := [], status := none, useStale, triggers, released := false }

def isWithholding (c : Capture τ) : Bool :=
  !c.released && c.useStale && c.status.any c.triggers.contains

def writeStatus (status : Status) (c : Capture τ) : Capture τ :=
  match c.status with
  | some _ => c
  | none =>
    let c := { c with status := some status }
    if c.isWithholding then c else { c with inner := Sink.writeStatus status c.inner }

def forward (chunk : Bytes) (c : Capture τ) : Except WriteError Unit × Capture τ :=
  match Sink.writeAll .shortForward chunk c.inner with
  | (result, inner) => (result, { c with inner })

/-- Remembers a chunk and forwards it unless output is held back. -/
def write (chunk : Bytes) (c : Capture τ) : Except WriteError Nat × Capture τ :=
  let c := if c.status.isNone then c.writeStatus .ok else c
  let c := { c with buffer := c.buffer ++ chunk }
  if c.isWithholding then (.ok chunk.length, c)
  else
    match c.forward chunk with
    | (.error e, c) => (.error e, c)
    | (.ok (), c) => (.ok chunk.length, c)

def release (c : Capture τ) : Except WriteError Unit × Capture τ :=
  if c.isWithholding then
    let c := { c with released := true }
    let c := match c.status with
      | none => c
      | some status => { c with inner := Sink.writeStatus status c.inner }
    if c.buffer.isEmpty then (.ok (), c) else c.forward c.buffer
  else (.ok (), c)

/-- The octets remembered so far, which are then forgotten. -/
def takeBuffer (c : Capture τ) : Bytes × Capture τ := (c.buffer, { c with buffer := [] })

instance : Sink (Capture τ) where
  headers c := Sink.headers c.inner
  setHeaders h c := { c with inner := Sink.setHeaders h c.inner }
  status := Capture.status
  writeStatus := Capture.writeStatus
  write := Capture.write

end Capture
end HttpCache
