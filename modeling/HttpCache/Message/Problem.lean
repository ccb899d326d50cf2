import HttpCache.Json.Writer
import HttpCache.Message.Response

/-!
# HttpCache.Message.Problem

JSON responses.

* `Problem.respond` — the answer for a failure: an object with the status, its phrase and a
  message.
* `Problem.success` — the answer that says only that all is well.
* `Problem.value` — a value as an answer; one without a JSON text becomes a failure.
-/

namespace HttpCache
namespace Problem

def ofJson (status : Status) (body : Bytes) : Response :=
  ((Response.ofStatus status).addHeader "Content-Type" "application/json").withBody body

def statusMembers (status : Status) : List (String × Bytes) :=
  [("status", Json.natural status.code), ("statusText", Json.quoted status.reason)]

def respond (status : Status) (message : String) : Response :=
  ofJson status (Json.object (statusMembers status ++ [("error", Json.quoted message)]))

def success : Response := ofJson .ok (Json.object (statusMembers .ok))

/-- A value as an answer. -/
def value (status : Status) (v : Json.Value) : Response :=
  match v.encode with
  | .ok body => ofJson status body
  | .error e => respond .internalServerError e.message

end Problem
end HttpCache
