import HttpCache.Message.Head
import HttpCache.Message.Headers
import HttpCache.Message.Method
import HttpCache.Text.Decimal
import HttpCache.Text.FormUrl

/-!
# HttpCache.Message.Request

A request as the layers see it.

* `Request.ofTarget` — a request for a target, split at its first question mark.
* `Request.parse` — a request from the octets of a connection, with the offset of its body.
* `queryParam?`, `keepAlive`, `contentLength?` — what the query and the headers say;
  `contentLength?_eq_none_iff` tells when no length is declared.
-/

namespace HttpCache

structure Request where
  method : Method
  path : String
  query : Option String
  version : Version
  headers : Headers
  body : Bytes
  deriving DecidableEq, Repr

namespace Request

/-- The path and the query of a target. -/
def splitTarget (target : String) : String × Option String :=
  (String.ofList (target.toList.takeWhile (· != '?')),
    match target.toList.dropWhile (· != '?') with
    | [] => none
    | _ :: query => some (String.ofList query))

def ofTarget (method : Method) (target : String) : Request :=
  { method, path := (splitTarget target).1, query := (splitTarget target).2,
    version := .http11, headers := .empty, body := [] }

/-- The headers of a head; a field whose value is not UTF-8 is dropped. -/
def headersOf (fields : List (String × Bytes)) : Headers :=
  .ofList (fields.filterMap fun field => (Text.ofUtf8? field.2).map fun value => (field.1, value))

def ofHead (head : Head) (body : Bytes) : Request :=
  { ofTarget (.ofText head.method) head.target with
    version := head.version, headers := headersOf head.fields, body }

/-- Reads a request whose body is everything after the head; also the offset of the body. -/
def parse (s : Bytes) : Except RequestError (Request × Nat) :=
  match Head.read s with
  | .error e => .error e
  | .ok (head, rest) => .ok (ofHead head rest, s.length - rest.length)

def params (r : Request) : List (String × String) :=
  match r.query with
  | none => []
  | some query => FormUrl.pairs query

/-- The last value of a query parameter. -/
def queryParam? (r : Request) (name : String) : Option String :=
  ((r.params.filter fun pair => pair.1 == name).getLast?).map (·.2)

def keepAlive (r : Request) : Bool :=
  match r.headers.get? "connection" with
  | some value => Ascii.sameName value "keep-alive"
  | none => r.version == .http11

def maxLength : Nat := 0xFFFFFFFFFFFFFFFF

/-- The declared length of the body, taken from the first header of that name. -/
def contentLength? (r : Request) : Option Nat :=
  (r.headers.get? "content-length").bind (Decimal.natural? maxLength)

/-- The text of a length: digits, with a plus sign or without, for a number of 64 bits. -/
def Declares (value : String) (n : Nat) : Prop :=
  n ≤ maxLength ∧
    ∃ cs, Decimal.Numeral cs n ∧ (value.toList = cs ∨ value.toList = '+' :: cs)

theorem contentLength?_eq_some_iff {r : Request} {n : Nat} :
    r.contentLength? = some n ↔
      ∃ value, r.headers.get? "content-length" = some value ∧ Declares value n := by
  simp only [contentLength?, Option.bind_eq_some_iff, Decimal.natural?_eq_some_iff, Declares]

/-- There is no length if there is no such header, or if its first value is not the text of one. -/
theorem contentLength?_eq_none_iff {r : Request} :
    r.contentLength? = none ↔
      r.headers.get? "content-length" = none ∨
        ∃ value, r.headers.get? "content-length" = some value ∧ ∀ n, ¬Declares value n := by
  cases hvalue : r.headers.get? "content-length" with
  | none => simp [contentLength?, hvalue]
  | some value =>
    rw [Option.eq_none_iff_forall_ne_some]
    simp [contentLength?_eq_some_iff, hvalue]

theorem mark_not_mem_splitTarget (target : String) : '?' ∉ (splitTarget target).1.toList := by
  intro h
  have hall := List.all_takeWhile (p := (· != '?')) (l := target.toList)
  simp only [splitTarget, String.toList_ofList] at h
  simpa using List.all_eq_true.mp hall '?' h

/-- The path and the query make up the target, with the mark between them. -/
theorem of_splitTarget (target : String) :
    ((splitTarget target).2 = none ∧ target = (splitTarget target).1) ∨
      ∃ query, (splitTarget target).2 = some query ∧
        target = (splitTarget target).1 ++ "?" ++ query := by
  have hall := List.takeWhile_append_dropWhile (p := (· != '?')) (l := target.toList)
  simp only [splitTarget]
  cases hd : target.toList.dropWhile (· != '?') with
  | nil =>
    rw [hd, List.append_nil] at hall
    exact .inl ⟨rfl, by rw [hall, String.ofList_toList]⟩
  | cons c query =>
    have hc : c = '?' := by
      have hhead := List.head?_dropWhile_not (· != '?') target.toList
      rw [hd, List.head?_cons] at hhead
      exact bne_eq_false_iff_eq.mp hhead
    rw [hd, hc] at hall
    refine .inr ⟨String.ofList query, rfl, String.toList_injective ?_⟩
    simp only [String.toList_append, String.toList_ofList, List.append_assoc]
    exact hall.symm

theorem parse_offset {s : Bytes} {r : Request} {offset : Nat} (h : parse s = .ok (r, offset)) :
    0 < offset ∧ offset ≤ s.length := by
  unfold parse at h
  split at h
  · cases h
  · rename_i hr
    cases h
    have := (Head.read_consumes hr).lt
    omega

end Request
end HttpCache
