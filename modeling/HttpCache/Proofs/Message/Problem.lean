import HttpCache.Message.Problem
import HttpCache.Proofs.Json.Encoding

/-!
# HttpCache.Proofs.Message.Problem

What a JSON answer says to its reader.

* `Answers` — a response with one header, the content type of JSON, and a body with one meaning.
* `answers_of_encode` — a value that is written is the meaning of its answer.
* `respond_carries`, `success_carries` — the answer for a failure carries the status, its phrase and
  any message as they are; the other one carries the first two.
* `value_answers` — a value is the meaning of the answer with it, or the answer says that there is
  no text for it.
-/

namespace HttpCache
namespace Problem

open Json (Means)

/-- The response has the status, JSON as its only header, and a body that means the value. -/
structure Answers (r : Response) (status : Status) (v : Json.Value) : Prop where
  status_eq : r.status = status
  fields_eq : r.headers.fields = [("Content-Type", "application/json")]
  means : Means r.body v

theorem answers_of_encode (status : Status) {v : Json.Value} {body : Bytes}
    (h : v.encode = .ok body) : Answers (ofJson status body) status v.named where
  status_eq := rfl
  fields_eq := rfl
  means := Json.means_of_encode h

/-- Whatever the message is made of, it does not get out of its string: the body is one object with
these members. -/
theorem respond_carries (status : Status) (message : String) :
    Answers (respond status message) status
      (.map [(.text "status", .number status.code), (.text "statusText", .text status.reason),
        (.text "error", .text message)]) := by
  have hencode : (Json.Value.map [(.text "status", .number status.code),
      (.text "statusText", .text status.reason), (.text "error", .text message)]).encode =
      .ok (Json.object (statusMembers status ++ [("error", Json.quoted message)])) := by
    rw [statusMembers, Json.natural_eq_integer]
    rfl
  exact answers_of_encode status hencode

/-- A message that looks like the rest of the object. -/
example : (respond .notFound "\",\"status\":200\x7d").body = Text.utf8
    "\x7b\"status\":404,\"statusText\":\"Not Found\",\"error\":\"\\\",\\\"status\\\":200\x7d\"\x7d" := by
  decide +kernel

theorem success_carries :
    Answers success .ok
      (.map [(.text "status", .number 200), (.text "statusText", .text "OK")]) := by
  have hencode : (Json.Value.map [(.text "status", .number 200),
      (.text "statusText", .text "OK")]).encode = .ok (Json.object (statusMembers .ok)) := by
    rw [statusMembers, Json.natural_eq_integer]
    rfl
  exact answers_of_encode .ok hencode

/-- A value is answered with what it means, or with a failure that says why it cannot be. -/
theorem value_answers (status : Status) (v : Json.Value) :
    Answers (value status v) status v.named ∨
      ∃ e, v.encode = .error e ∧ value status v = respond .internalServerError e.message := by
  cases h : v.encode with
  | ok body =>
    rw [value, h]
    exact .inl (answers_of_encode status h)
  | error e =>
    rw [value, h]
    exact .inr ⟨e, rfl, rfl⟩

end Problem
end HttpCache
