import HttpCache.Message.Response
import HttpCache.Proofs.Message.Headers
import HttpCache.Proofs.Text.Lines

/-!
# HttpCache.Proofs.Message.Wire

What can be read off the octets of a response.

* `Headers.FitsLine` — a field that can stand on a line of its own.
* `Response.headLines` — the lines of the head: the status line and the fields that are sent, in
  order (`Response.sentFields`).
* `Response.wire_eq` — the octets are those lines, an empty line and the body.
* `Response.framed_of_fitsLine` — the first empty line ends the head, and the octets determine all
  that the response says.
-/

namespace HttpCache

open Ascii

namespace Headers

/-- No line ends inside the field, and its name ends at the first colon. -/
structure FitsLine (field : String × String) : Prop where
  name : ∀ c ∈ field.1.toList, c ≠ '\r' ∧ c ≠ '\n' ∧ c ≠ ':'
  value : ∀ c ∈ field.2.toList, c ≠ '\r' ∧ c ≠ '\n'

instance (field : String × String) : Decidable (FitsLine field) :=
  decidable_of_iff ((field.1.toList.all fun c => c != '\r' && c != '\n' && c != ':') = true ∧
      (field.2.toList.all fun c => c != '\r' && c != '\n') = true)
    ⟨fun ⟨hname, hvalue⟩ => ⟨by simpa [and_assoc] using hname, by simpa using hvalue⟩,
      fun ⟨hname, hvalue⟩ => ⟨by simpa [and_assoc] using hname, by simpa using hvalue⟩⟩

def fieldLine (field : String × String) : Bytes := Text.utf8 (field.1 ++ ": " ++ field.2)

theorem fieldLine_eq (field : String × String) :
    fieldLine field = Text.utf8 field.1 ++ colon :: (space :: Text.utf8 field.2) := by
  have hmark : Text.utf8 ": " = [colon, space] := rfl
  simp [fieldLine, hmark]

theorem utf8_line (field : String × String) :
    Text.utf8 (line field) = fieldLine field ++ [cr, lf] := by
  have hend : Text.utf8 "\r\n" = [cr, lf] := rfl
  simp [line, fieldLine, hend]

theorem FitsLine.isLine {field : String × String} (h : FitsLine field) :
    Text.IsLine (fieldLine field) where
  ne_nil := by simp [fieldLine_eq]
  not_mem_cr := by
    have hname : cr ∉ Text.utf8 field.1 :=
      Text.not_mem_utf8 (fun hc => (h.name _ hc).1 rfl) (c := '\r') rfl (by decide)
    have hvalue : cr ∉ Text.utf8 field.2 :=
      Text.not_mem_utf8 (fun hc => (h.value _ hc).1 rfl) (c := '\r') rfl (by decide)
    have hcolon : cr ≠ colon := by decide
    have hspace : cr ≠ space := by decide
    simp [fieldLine_eq, hname, hvalue, hcolon, hspace]

theorem fieldLine_injective {field field' : String × String} (h : FitsLine field)
    (h' : FitsLine field') (heq : fieldLine field = fieldLine field') : field = field' := by
  have hcolon : ∀ {f : String × String}, FitsLine f → colon ∉ Text.utf8 f.1 := fun hf =>
    Text.not_mem_utf8 (fun hc => (hf.name _ hc).2.2 rfl) (c := ':') rfl (by decide)
  rw [fieldLine_eq, fieldLine_eq] at heq
  obtain ⟨hname, hrest⟩ := Text.append_cons_injective (hcolon h) (hcolon h') heq
  exact Prod.ext (Text.utf8_injective hname) (Text.utf8_injective (List.cons.inj hrest).2)

theorem map_fieldLine_injective {fields fields' : List (String × String)}
    (h : ∀ field ∈ fields, FitsLine field) (h' : ∀ field ∈ fields', FitsLine field)
    (heq : fields.map fieldLine = fields'.map fieldLine) : fields = fields' := by
  induction fields generalizing fields' with
  | nil => exact (List.map_eq_nil_iff.mp heq.symm).symm
  | cons field fields ih =>
    cases fields' with
    | nil => cases heq
    | cons field' fields' =>
      obtain ⟨hfield, hfields⟩ := List.forall_mem_cons.mp h
      obtain ⟨hfield', hfields'⟩ := List.forall_mem_cons.mp h'
      obtain ⟨hhead, htail⟩ := List.cons.inj heq
      rw [fieldLine_injective hfield hfield' hhead, ih hfields hfields' htail]

end Headers

namespace Status

theorem toList_text (status : Status) :
    status.text.toList = Decimal.digits status.code ++ ' ' :: status.reason.toList := by
  simp [text, Decimal.text]

theorem text_injective {status status' : Status} (h : status.text = status'.text) :
    status = status' := by
  have hspace : ∀ n, ' ' ∉ Decimal.digits n := fun n hc => by
    cases Decimal.isDigit_of_mem_digits hc
  have htext := congrArg String.toList h
  rw [toList_text, toList_text] at htext
  have hcode := congrArg Decimal.value? (Text.append_cons_injective (hspace _) (hspace _) htext).1
  rw [Decimal.value?_digits, Decimal.value?_digits] at hcode
  have hstatus := ofCode?_code status
  rw [Option.some.inj hcode, ofCode?_code] at hstatus
  exact (Option.some.inj hstatus).symm

theorem cr_not_mem_text (status : Status) : '\r' ∉ status.text.toList := by
  have hreason : '\r' ∉ status.reason.toList := by cases status <;> decide
  have hdigits : '\r' ∉ Decimal.digits status.code := fun hc => by
    cases Decimal.isDigit_of_mem_digits hc
  simp [toList_text, hreason, hdigits]

end Status

namespace Response

open Headers (FitsLine fieldLine)

/-- The fields of the response itself that are sent. -/
def ownFields (r : Response) : List (String × String) :=
  r.headers.fields.filter fun field =>
    !sameName field.1 "Content-Length" && !sameName field.1 "Connection"

/-- A body without a content type gets one. -/
def typeFields (r : Response) : List (String × String) :=
  if r.body ≠ [] ∧ r.headers.getAll "Content-Type" = [] then
    [("Content-Type", "text/plain; charset=utf-8")]
  else []

/-- The fields that are sent, in order. -/
def sentFields (r : Response) : List (String × String) :=
  r.ownFields ++ r.typeFields ++
    [("Connection", if r.keepAlive then "keep-alive" else "close"),
      ("Content-Length", Decimal.text r.body.length)]

def headLines (r : Response) : List Bytes :=
  Text.utf8 ("HTTP/1.1 " ++ r.status.text) :: r.sentFields.map fieldLine

/-! ## The octets as lines -/

theorem sameName_right {name other : String} (h : sameName name other = true) (given : String) :
    sameName given name = sameName given other := by
  rw [sameName_comm given, sameName_comm given, Headers.sameName_congr h]

/-- The default content type is added to what is sent, whatever else is left out. -/
theorem fields_typed (r : Response) :
    (if !r.body.isEmpty && !r.headers.contains "content-type" then
      r.headers.insert "Content-Type" defaultContentType else r.headers).fields =
      r.headers.fields ++ r.typeFields := by
  have htype : sameName "content-type" "Content-Type" = true := by rw [sameName_eq]; rfl
  rw [Headers.contains_eq, Headers.getAll_congr r.headers htype, typeFields]
  by_cases hb : r.body = [] <;> by_cases ht : r.headers.getAll "Content-Type" = [] <;>
    simp [hb, ht, Headers.insert, defaultContentType]

theorem fields_wireHeaders (r : Response) :
    r.wireHeaders.fields =
      (r.headers.fields ++ r.typeFields).filter (fun field => !sameName field.1 "Connection") ++
        [("Connection", r.connection)] := by
  rw [← fields_typed]
  rfl

theorem mem_typeFields {r : Response} {field : String × String} (h : field ∈ r.typeFields) :
    field = ("Content-Type", "text/plain; charset=utf-8") := by
  unfold typeFields at h
  split at h
  · exact List.mem_singleton.mp h
  · exact absurd h List.not_mem_nil

/-- Only the fields at the end speak of the connection and of the length. -/
theorem sameName_of_mem {r : Response} {field : String × String}
    (h : field ∈ r.ownFields ++ r.typeFields) :
    sameName field.1 "Content-Length" = false ∧ sameName field.1 "Connection" = false := by
  rcases List.mem_append.mp h with h | h
  · simpa using (List.mem_filter.mp h).2
  · have hlength : sameName "Content-Type" "Content-Length" = false := by rw [sameName_eq]; decide
    have hconnection : sameName "Content-Type" "Connection" = false := by rw [sameName_eq]; decide
    rw [mem_typeFields h]
    exact ⟨hlength, hconnection⟩

theorem filter_typeFields (r : Response) :
    r.typeFields.filter (fun field =>
      !sameName field.1 "Content-Length" && !sameName field.1 "Connection") = r.typeFields := by
  refine List.filter_eq_self.mpr fun field hfield => ?_
  obtain ⟨hlength, hconnection⟩ := sameName_of_mem (List.mem_append_right r.ownFields hfield)
  simp [hlength, hconnection]

theorem sentFields_eq (r : Response) :
    (r.wireHeaders.remove "content-length").fields ++
      [("Content-Length", Decimal.text r.body.length)] = r.sentFields := by
  have hlength : sameName "content-length" "Content-Length" = true := by rw [sameName_eq]; rfl
  have hconnection : sameName "Connection" "Content-Length" = false := by rw [sameName_eq]; decide
  simp only [Headers.remove, fields_wireHeaders, sameName_right hlength, List.filter_append,
    List.filter_filter, filter_typeFields]
  simp [sentFields, ownFields, connection, hconnection]

theorem wire_eq (r : Response) : r.wire = Text.ended r.headLines ++ cr :: lf :: r.body := by
  have hend : Text.utf8 "\r\n" = [cr, lf] := rfl
  have hstart : Text.utf8 r.statusLine = Text.utf8 ("HTTP/1.1 " ++ r.status.text) ++ [cr, lf] := by
    rw [statusLine, Text.utf8_append, hend]
  have hlines : ∀ fields : List (String × String),
      (fields.map Headers.line).flatMap Text.utf8 = Text.ended (fields.map fieldLine) := by
    intro fields
    simp only [Text.ended, List.flatMap_map, Headers.utf8_line]
  have hsent : r.wireLines =
      r.statusLine :: r.sentFields.map Headers.line := by
    rw [wireLines, ← sentFields_eq, List.map_append]
    rfl
  rw [wire, hsent, List.flatMap_cons, hlines, hstart, hend, headLines]
  simp [Text.ended]

/-! ## Reading the octets -/

theorem fitsLine_sentFields {r : Response} (h : ∀ field ∈ r.headers.fields, FitsLine field) :
    ∀ field ∈ r.sentFields, FitsLine field := by
  intro field hmem
  simp only [sentFields, List.mem_append, List.mem_cons, List.not_mem_nil, or_false] at hmem
  rcases hmem with (hmem | hmem) | rfl | rfl
  · exact h field (List.mem_filter.mp hmem).1
  · rw [mem_typeFields hmem]
    decide
  · cases r.keepAlive <;> decide
  · have hname : FitsLine ("Content-Length", "") := by decide
    refine ⟨hname.name, fun c hc => ?_⟩
    rw [Decimal.text, String.toList_ofList] at hc
    have hdigit := Decimal.isDigit_of_mem_digits hc
    constructor <;> rintro rfl <;> cases hdigit

theorem isLine_headLines {r : Response} (h : ∀ field ∈ r.headers.fields, FitsLine field) :
    ∀ line ∈ r.headLines, Text.IsLine line := by
  intro line hmem
  rcases List.mem_cons.mp hmem with rfl | hmem
  · have hprotocol : Text.utf8 "HTTP/1.1 " ≠ [] := by decide
    refine ⟨?_, Text.not_mem_utf8 (c := '\r') ?_ rfl (by decide)⟩
    · simp [hprotocol]
    · simp [r.status.cr_not_mem_text]
  · obtain ⟨field, hfield, rfl⟩ := List.mem_map.mp hmem
    exact (fitsLine_sentFields h field hfield).isLine

theorem cutAtFirst_wire {r : Response} (h : ∀ field ∈ r.headers.fields, FitsLine field) :
    Text.CutAtFirst [cr, lf, cr, lf] r.wire ([cr, lf].intercalate r.headLines) r.body := by
  rw [wire_eq]
  exact Text.cutAtFirst_emptyLine (isLine_headLines h) r.body

theorem eq_of_wire_eq {r r' : Response} (h : ∀ field ∈ r.headers.fields, FitsLine field)
    (h' : ∀ field ∈ r'.headers.fields, FitsLine field) (heq : r.wire = r'.wire) :
    r.status = r'.status ∧ r.sentFields = r'.sentFields ∧ r.body = r'.body := by
  have hline := isLine_headLines h
  have hline' := isLine_headLines h'
  obtain ⟨hhead, hbody⟩ := (heq ▸ cutAtFirst_wire h).unique (cutAtFirst_wire h')
  have hended : Text.ended r.headLines = Text.ended r'.headLines := by
    rw [headLines, headLines, Text.ended_eq_intercalate, Text.ended_eq_intercalate, ← headLines,
      ← headLines, hhead]
  have hlines := Text.ended_injective (fun l hl => (hline l hl).not_mem_cr)
    (fun l hl => (hline' l hl).not_mem_cr) hended
  obtain ⟨hstart, hfields⟩ := List.cons.inj hlines
  rw [Text.utf8_append, Text.utf8_append] at hstart
  have hstatus := Text.utf8_injective (List.append_cancel_left hstart)
  exact ⟨Status.text_injective hstatus, Headers.map_fieldLine_injective (fitsLine_sentFields h)
    (fitsLine_sentFields h') hfields, hbody⟩

theorem keepAlive_of_sentFields {r r' : Response} (h : r.sentFields = r'.sentFields) :
    r.keepAlive = r'.keepAlive := by
  obtain ⟨-, hlast⟩ := List.append_inj' h rfl
  simp only [List.cons.injEq, Prod.mk.injEq, true_and] at hlast
  cases hk : r.keepAlive <;> cases hk' : r'.keepAlive <;> simp [hk, hk'] at hlast <;> rfl

/-- The octets of a response are cut at the first empty line into its head and its body, and the
head has one line that says what happens to the connection and one that says how long the body
is. -/
structure Framed (r : Response) : Prop where
  cut : Text.CutAtFirst [cr, lf, cr, lf] r.wire ([cr, lf].intercalate r.headLines) r.body
  connection : r.sentFields.filter (fun field => sameName field.1 "Connection") =
    [("Connection", if r.keepAlive then "keep-alive" else "close")]
  contentLength : r.sentFields.filter (fun field => sameName field.1 "Content-Length") =
    [("Content-Length", Decimal.text r.body.length)]
  length : Decimal.value? (Decimal.text r.body.length).toList = some r.body.length

theorem framed {r : Response} (h : ∀ field ∈ r.headers.fields, FitsLine field) : Framed r where
  cut := cutAtFirst_wire h
  connection := by
    have hother : sameName "Content-Length" "Connection" = false := by rw [sameName_eq]; decide
    rw [sentFields, List.filter_append, List.filter_eq_nil_iff.mpr fun field hfield =>
      by simp [(sameName_of_mem hfield).2]]
    simp [sameName_refl, hother]
  contentLength := by
    have hother : sameName "Connection" "Content-Length" = false := by rw [sameName_eq]; decide
    rw [sentFields, List.filter_append, List.filter_eq_nil_iff.mpr fun field hfield =>
      by simp [(sameName_of_mem hfield).1]]
    simp [sameName_refl, hother]
  length := by rw [Decimal.text, String.toList_ofList, Decimal.value?_digits]

/-- **The octets of a response are framed unambiguously.** If each header fits on one line, the
first empty line ends the head, which has the status line and the fields to be sent, in order; and
another such response with the same octets has the same status, the same fields, the same body and
does the same to the connection. -/
theorem framed_of_fitsLine (r : Response) (h : ∀ field ∈ r.headers.fields, FitsLine field) :
    Framed r ∧
      ∀ r' : Response, (∀ field ∈ r'.headers.fields, FitsLine field) → r'.wire = r.wire →
        r'.status = r.status ∧ r'.keepAlive = r.keepAlive ∧ r'.body = r.body ∧
          r'.sentFields = r.sentFields := by
  refine ⟨framed h, fun r' h' heq => ?_⟩
  obtain ⟨hstatus, hfields, hbody⟩ := eq_of_wire_eq h' h heq
  exact ⟨hstatus, keepAlive_of_sentFields hfields, hbody, hfields⟩

/-- A response whose own fields speak of the connection and of the length, in other letters, and
whose body has an empty line in it. -/
def chattyResponse : Response where
  status := .notFound
  headers := .ofList
    [("CONTENT-length", "7"), ("X-Trace", "a: b"), ("connection", "upgrade"), ("x-trace", "")]
  body := [13, 10, 13, 10]
  keepAlive := false

/-- The same response without what is not sent. -/
def tidyResponse : Response where
  status := .notFound
  headers := .ofList
    [("X-Trace", "a: b"), ("x-trace", ""), ("Content-Type", "text/plain; charset=utf-8")]
  body := [13, 10, 13, 10]
  keepAlive := false

theorem framed_chattyResponse :
    Framed chattyResponse ∧ tidyResponse.wire = chattyResponse.wire ∧
      tidyResponse.status = chattyResponse.status ∧
      tidyResponse.keepAlive = chattyResponse.keepAlive ∧
      tidyResponse.body = chattyResponse.body ∧
      tidyResponse.sentFields = chattyResponse.sentFields := by
  have hfits : ∀ field ∈ chattyResponse.headers.fields, FitsLine field := by decide
  have htidy : ∀ field ∈ tidyResponse.headers.fields, FitsLine field := by decide
  have hown : tidyResponse.ownFields ++ tidyResponse.typeFields =
      chattyResponse.ownFields ++ chattyResponse.typeFields := by
    simp only [ownFields, typeFields, Headers.getAll, sameName_eq]
    decide
  have hfields : tidyResponse.sentFields = chattyResponse.sentFields := by
    rw [sentFields, sentFields, hown]
    rfl
  have hstatus : tidyResponse.status = chattyResponse.status := rfl
  have hbody : tidyResponse.body = chattyResponse.body := rfl
  have hwire : tidyResponse.wire = chattyResponse.wire := by
    rw [wire_eq, wire_eq, headLines, headLines, hfields, hstatus, hbody]
  obtain ⟨hframed, hsame⟩ := framed_of_fitsLine chattyResponse hfits
  exact ⟨hframed, hwire, hsame tidyResponse htidy hwire⟩

end Response
end HttpCache
