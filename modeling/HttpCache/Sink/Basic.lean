import HttpCache.Message.Response

/-!
# HttpCache.Sink.Basic

Sinks receive a response piece by piece: headers are changed in place, the status is committed
once, body octets are written in chunks.

* `Sink` — the operations; a write tells how many octets the sink has taken, or fails.
* `writeAll` — writes a chunk and fails unless all of it is taken.
* `Buffer` — the sink that collects everything.
* `Response.replay` — sends a response into a sink.
-/

namespace HttpCache

inductive WriteError where
  | refused (reason : String)
  /-- The sink took only a part of what was forwarded to it. -/
  | shortForward
  /-- The sink took only a part of a replayed body. -/
  | shortReplay
  deriving DecidableEq, Repr

namespace WriteError

def message : WriteError → String
  | refused reason => reason
  | shortForward => "short write to response sink"
  | shortReplay => "write zero"

end WriteError

class Sink (τ : Type) where
  headers : τ → Headers
  setHeaders : Headers → τ → τ
  status : τ → Option Status
  writeStatus : Status → τ → τ
  write : Bytes → τ → Except WriteError Nat × τ

namespace Sink

variable {τ : Type} [Sink τ]

def modifyHeaders (f : Headers → Headers) (t : τ) : τ := setHeaders (f (headers t)) t

/-- Writes a chunk in one go; `short` is the failure of a sink that takes less. -/
def writeAll (short : WriteError) (chunk : Bytes) (t : τ) : Except WriteError Unit × τ :=
  match write chunk t with
  | (.error e, t) => (.error e, t)
  | (.ok n, t) => if n = chunk.length then (.ok (), t) else (.error short, t)

end Sink

structure Buffer where
  status : Option Status
  headers : Headers
  body : Bytes
  deriving DecidableEq, Repr

namespace Buffer

def empty : Buffer := ⟨none, .empty, []⟩

/-- The first committed status stays. -/
def writeStatus (status : Status) (b : Buffer) : Buffer :=
  { b with status := some (b.status.getD status) }

/-- Takes a whole chunk; a status that was not committed before is 200 from now on. -/
def write (chunk : Bytes) (b : Buffer) : Except WriteError Nat × Buffer :=
  (.ok chunk.length, { b with status := some (b.status.getD .ok), body := b.body ++ chunk })

/-- What has been collected; without a committed status it is 200. -/
def toResponse (b : Buffer) : Response := .ofParts (b.status.getD .ok) b.headers b.body

instance : Sink Buffer where
  headers := Buffer.headers
  setHeaders h b := { b with headers := h }
  status := Buffer.status
  writeStatus := Buffer.writeStatus
  write := Buffer.write

end Buffer

def Response.replay {τ : Type} [Sink τ] (r : Response) (t : τ) : Except WriteError Unit × τ :=
  let t := Sink.writeStatus r.status (Sink.modifyHeaders (·.append r.headers.fields) t)
  if r.body.isEmpty then (.ok (), t) else Sink.writeAll .shortReplay r.body t

end HttpCache
