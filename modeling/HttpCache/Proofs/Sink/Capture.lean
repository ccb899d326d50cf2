import HttpCache.Layer.Caching

/-!
# HttpCache.Proofs.Sink.Capture

An answer captured by a cache layer, in front of an empty buffer.

* `captured_eq` — all of it is remembered; the buffer behind has all of it too, or only its
  headers while a trigger status is held back.
* `released_captured` — after a release the buffer behind has all of it in either case.
* `sentOn`, `staleAnswer_captured` — the answers that the layer makes of a capture.
-/

namespace HttpCache
namespace Caching

variable {σ : Type} (layer : Caching σ)

/-- A capture of the layer's with a committed status. -/
def capturing (inner : Buffer) (buffer : Bytes) (status : Status) (released : Bool) :
    Capture Buffer :=
  { inner, buffer, status := some status, useStale := layer.policy.useStale,
    triggers := layer.policy.staleStatuses, released }

theorem isWithholding_capturing (inner : Buffer) (buffer : Bytes) (status : Status) :
    (layer.capturing inner buffer status false).isWithholding =
      layer.policy.isStaleTrigger status := rfl

theorem writeStatus_start (inner : Buffer) (status : Status) :
    (Capture.start inner layer.policy.useStale layer.policy.staleStatuses).writeStatus status =
      layer.capturing
        (if layer.policy.isStaleTrigger status then inner else inner.writeStatus status) []
        status false := by
  have hw := isWithholding_capturing layer inner [] status
  simp only [capturing] at hw
  simp only [Capture.writeStatus, Capture.start, hw]
  split <;> rfl

theorem writeAll_buffer (short : WriteError) (chunk : Bytes) (b : Buffer) :
    Sink.writeAll short chunk b =
      (.ok (), { b with status := some (b.status.getD .ok), body := b.body ++ chunk }) := by
  simp [Sink.writeAll, Sink.write, Buffer.write]

theorem write_capturing (inner : Buffer) (buffer chunk : Bytes) (status : Status) :
    (layer.capturing inner buffer status false).write chunk =
      (.ok chunk.length,
        layer.capturing
          (if layer.policy.isStaleTrigger status then inner
            else { inner with
              status := some (inner.status.getD .ok), body := inner.body ++ chunk })
          (buffer ++ chunk) status false) := by
  have hw := isWithholding_capturing layer inner (buffer ++ chunk) status
  simp only [capturing] at hw
  simp only [capturing, Capture.write, Option.isNone_some, Bool.false_eq_true, if_false, hw,
    Capture.forward, writeAll_buffer]
  split <;> rfl

theorem captured_eq (response : Response) :
    layer.captured response =
      layer.capturing
        (if layer.policy.isStaleTrigger response.status then ⟨none, response.headers, []⟩
          else ⟨some response.status, response.headers, response.body⟩)
        response.body response.status false := by
  have hstart : Sink.modifyHeaders (·.append response.headers.fields)
      (Capture.start Buffer.empty layer.policy.useStale layer.policy.staleStatuses) =
      Capture.start ⟨none, response.headers, []⟩ layer.policy.useStale
        layer.policy.staleStatuses := rfl
  have hstatus := writeStatus_start layer ⟨none, response.headers, []⟩ response.status
  rw [captured, Response.replay]
  simp only [hstart, Sink.writeStatus, hstatus]
  split
  · rename_i hb
    rw [List.isEmpty_iff] at hb
    rw [hb]
    rfl
  · simp only [Sink.writeAll, Sink.write, write_capturing, if_true, List.nil_append]
    congr 1
    split <;> rfl

theorem released_captured (response : Response) :
    (released (layer.captured response)).buffer = response.body ∧
      (released (layer.captured response)).inner =
        ⟨some response.status, response.headers, response.body⟩ := by
  rw [captured_eq, released, Capture.release, isWithholding_capturing]
  by_cases h : layer.policy.isStaleTrigger response.status
  · rw [if_pos h, if_pos h]
    by_cases hb : response.body = []
    · simp [capturing, hb, Sink.writeStatus, Buffer.writeStatus]
    · simp [capturing, hb, Capture.forward, writeAll_buffer, Sink.writeStatus, Buffer.writeStatus]
  · rw [if_neg h, if_neg h]
    exact ⟨rfl, rfl⟩

/-! ## What the layer makes of it -/

/-- An answer as it is sent on: its status, headers and body, the connection staying open. -/
def sentOn (response : Response) : Response :=
  .ofParts response.status response.headers response.body

theorem status_captured (response : Response) :
    (layer.captured response).status = some response.status := by
  rw [captured_eq, capturing]

theorem toResponse_released (response : Response) :
    (released (layer.captured response)).inner.toResponse = sentOn response := by
  rw [(released_captured layer response).2]
  rfl

theorem staleAnswer_captured (entry : Entry) {response : Response}
    (h : layer.policy.isStaleTrigger response.status = true) :
    staleAnswer entry (layer.captured response) =
      (entry.replay .replace Buffer.empty).2.toResponse := by
  rw [captured_eq, if_pos h]
  rfl

end Caching
end HttpCache
