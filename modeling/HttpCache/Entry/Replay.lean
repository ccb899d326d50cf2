import HttpCache.Entry.Basic
import HttpCache.Sink.Basic

/-!
# HttpCache.Entry.Replay

Writing a stored response into a sink.

* `HeaderMerge` — who wins when the sink already has fields of a stored name.
* `Entry.mergeHeaders` — the headers afterwards, marked as coming from the cache.
* `Entry.replay` — headers, status and body, in this order.
-/

namespace HttpCache

inductive HeaderMerge where
  /-- A name that the sink already has keeps its values. -/
  | keep
  /-- A stored name takes the place of the sink's values. -/
  | replace
  deriving DecidableEq, Repr

namespace Entry

/-- The header that marks a response served from the cache. -/
def markerHeader : String := "x-cached-response"

def mergeName (stored : Headers) (merge : HeaderMerge) (present : Headers) (name : String) :
    Headers :=
  let fields := (stored.getAll name).map fun value => (name, value)
  match merge with
  | .keep => if present.contains name then present else present.append fields
  | .replace => (present.remove name).append fields

def mergeHeaders (stored : Headers) (merge : HeaderMerge) (present : Headers) : Headers :=
  (stored.names.foldl (mergeName stored merge) present).set markerHeader "true"

/-- The status to answer with: 200 stands in for an unknown code. -/
def statusOrOk (e : Entry) : Status :=
  match e.status? with
  | .ok status => status
  | .error _ => .ok

/-- Writes the entry into a sink. Only a failure of the sink is reported; how much of the body it
took is not. -/
def replay {τ : Type} [Sink τ] (e : Entry) (merge : HeaderMerge) (t : τ) :
    Except WriteError Unit × τ :=
  let t := Sink.modifyHeaders (mergeHeaders e.headers merge) t
  let t := Sink.writeStatus e.statusOrOk t
  if e.body.isEmpty then (.ok (), t)
  else
    match Sink.write e.body t with
    | (.error err, t) => (.error err, t)
    | (.ok _, t) => (.ok (), t)

def toResponse (e : Entry) : Response := (e.replay .keep Buffer.empty).2.toResponse

end Entry
end HttpCache
