import HttpCache.Proofs.Message.Head
import HttpCache.Proofs.Text.Ascii

/-!
# HttpCache.Proofs.Message.Rendering

A request that is written and then read.

* `Request.Draft`: a request that can be written, with the texts that each of its parts allows.
* `Draft.head`: the octets of its head, which its body follows.
* `Draft.ReadAs`: a request says what a draft says.
* `Request.parse_head_body`: a draft is read as it is, as long as its header lines are not too many.
-/

namespace HttpCache

open Ascii

namespace Version

def text : Version → String
  | http10 => "HTTP/1.0"
  | http11 => "HTTP/1.1"

end Version

namespace Request

/-- The text of a method, or of the name of a header. -/
structure IsToken (text : String) : Prop where
  ne_empty : text ≠ ""
  octets : ∀ b ∈ Text.utf8 text, isTokenByte b = true

structure IsTarget (text : String) : Prop where
  ne_empty : text ≠ ""
  octets : ∀ b ∈ Text.utf8 text, (0x21 ≤ b ∧ b ≤ 0x7E) ∨ 0x80 ≤ b

structure IsFieldValue (text : String) : Prop where
  octets : ∀ b ∈ Text.utf8 text, b = tab ∨ (0x20 ≤ b ∧ b ≤ 0x7E) ∨ 0x80 ≤ b
  not_blank_head : ∀ b ∈ (Text.utf8 text).head?, isBlank b = false
  not_blank_last : ∀ b ∈ (Text.utf8 text).getLast?, isBlank b = false

instance (text : String) : Decidable (IsToken text) :=
  decidable_of_iff (text ≠ "" ∧ (Text.utf8 text).all isTokenByte = true)
    ⟨fun ⟨hne, hall⟩ => ⟨hne, List.all_eq_true.mp hall⟩,
      fun ⟨hne, hall⟩ => ⟨hne, List.all_eq_true.mpr hall⟩⟩

instance (text : String) : Decidable (IsTarget text) :=
  decidable_of_iff
    (text ≠ "" ∧
      ((Text.utf8 text).all fun b => decide ((0x21 ≤ b ∧ b ≤ 0x7E) ∨ 0x80 ≤ b)) = true)
    ⟨fun ⟨hne, hall⟩ => ⟨hne, by simpa using hall⟩, fun ⟨hne, hall⟩ => ⟨hne, by simpa using hall⟩⟩

instance (text : String) : Decidable (IsFieldValue text) :=
  decidable_of_iff
    (((Text.utf8 text).all fun b =>
        decide (b = tab ∨ (0x20 ≤ b ∧ b ≤ 0x7E) ∨ 0x80 ≤ b)) = true ∧
      ((Text.utf8 text).head?.all fun b => !isBlank b) = true ∧
      ((Text.utf8 text).getLast?.all fun b => !isBlank b) = true)
    (by
      simp only [List.all_eq_true, decide_eq_true_eq, Option.all_eq_true, Bool.not_eq_true']
      exact ⟨fun ⟨hall, hhead, hlast⟩ => ⟨hall, hhead, hlast⟩,
        fun ⟨hall, hhead, hlast⟩ => ⟨hall, hhead, hlast⟩⟩)

/-- A request that can be written, after a number of empty lines. -/
structure Draft where
  emptyLines : Nat
  method : String
  target : String
  version : Version
  fields : List (String × String)
  body : Bytes
  isToken_method : IsToken method := by decide +kernel
  isTarget_target : IsTarget target := by decide +kernel
  isToken_name : ∀ field ∈ fields, IsToken field.1 := by decide +kernel
  isFieldValue_value : ∀ field ∈ fields, IsFieldValue field.2 := by decide +kernel

namespace Draft

def fieldLine (field : String × String) : Bytes :=
  Text.utf8 field.1 ++ colon :: space :: (Text.utf8 field.2 ++ [cr, lf])

def requestLine (d : Draft) : Bytes :=
  Text.utf8 d.method ++ space :: (Text.utf8 d.target ++ space ::
    (Text.utf8 d.version.text ++ [cr, lf]))

/-- The octets before the body. -/
def head (d : Draft) : Bytes :=
  (List.replicate d.emptyLines [cr, lf]).flatten ++
    (d.requestLine ++ (d.fields.flatMap fieldLine ++ [cr, lf]))

/-- A request says what a draft says. Its method is a standard one if it has the name of one, its
path and query are parted by the first question mark of the target, and a query parameter has the
last value that the query gives it. -/
structure ReadAs (d : Draft) (r : Request) : Prop where
  method : r.method.text = d.method
  standard : ∀ m : Method, m.isCustom = false → (r.method = m ↔ d.method = m.text)
  target : (r.query = none ∧ d.target = r.path ∨
    ∃ query, r.query = some query ∧ d.target = r.path ++ "?" ++ query) ∧ '?' ∉ r.path.toList
  params : ∀ name value, r.queryParam? name = some value ↔
    ∃ query before after, r.query = some query ∧
      FormUrl.pairs query = before ++ (name, value) :: after ∧ ∀ pair ∈ after, pair.1 ≠ name
  version : r.version = d.version
  fields : r.headers.fields = d.fields
  body : r.body = d.body

end Draft
end Request

namespace Ascii

theorem isTargetByte_of_range {b : UInt8} :
    (0x21 ≤ b ∧ b ≤ 0x7E) ∨ 0x80 ≤ b → isTargetByte b = true :=
  Text.forall_octet (p := fun b => (0x21 ≤ b ∧ b ≤ 0x7E) ∨ 0x80 ≤ b → isTargetByte b = true)
    (by decide +kernel) b

theorem isFieldByte_of_range {b : UInt8} :
    b = tab ∨ (0x20 ≤ b ∧ b ≤ 0x7E) ∨ 0x80 ≤ b → isFieldByte b = true :=
  Text.forall_octet
    (p := fun b => b = tab ∨ (0x20 ≤ b ∧ b ≤ 0x7E) ∨ 0x80 ≤ b → isFieldByte b = true)
    (by decide +kernel) b

end Ascii

namespace Head

@[simp] theorem andThen_ok {α β : Type} (value : α) (rest : Bytes)
    (next : α → Bytes → Except RequestError (β × Bytes)) :
    andThen (.ok (value, rest)) next = next value rest := rfl

theorem utf8_ne_nil {text : String} (h : text ≠ "") : Text.utf8 text ≠ [] :=
  fun hnil => h (Text.utf8_injective (hnil.trans Text.utf8_empty.symm))

/-- A token starts with an octet that no line end has. -/
theorem exists_cons_of_isToken {text : String} (h : Request.IsToken text) :
    ∃ b tail, Text.utf8 text = b :: tail ∧ b ≠ cr ∧ b ≠ lf := by
  obtain ⟨b, tail, hb⟩ := List.exists_cons_of_ne_nil (utf8_ne_nil h.ne_empty)
  have hmem := h.octets b (hb ▸ List.mem_cons_self)
  refine ⟨b, tail, hb, ?_, ?_⟩ <;> rintro rfl <;> exact absurd hmem (by decide)

@[simp] theorem lineEnd_crlf (fault : HeadFault) (rest : Bytes) :
    lineEnd fault (cr :: lf :: rest) = .ok ((), rest) := rfl

/-! ## The request line -/

theorem blankLines_emptyLines (n : Nat) {b : UInt8} (hb : b ≠ cr ∧ b ≠ lf) (s : Bytes) :
    blankLines ((List.replicate n [cr, lf]).flatten ++ b :: s) = .ok ((), b :: s) := by
  rw [blankLines]
  induction n with
  | zero =>
    rw [List.replicate_zero, List.flatten_nil, List.nil_append, skipLineEnds.eq_def]
    simp [hb, Except.map]
  | succ n ih =>
    rw [List.replicate_succ, List.flatten_cons, List.append_assoc, ← ih]
    simp [skipLineEnds]

theorem readRun_word {member : UInt8 → Bool} {mark : UInt8} {word : Bytes}
    (hword : ∀ b ∈ word, member b = true) (hne : word ≠ []) (hmark : member mark = false)
    (fault : HeadFault) (rest : Bytes) :
    readRun member mark fault (word ++ mark :: rest) = .ok (word, rest) := by
  obtain ⟨htake, hdrop⟩ := span_append hword hmark rest
  have hnil : word.isEmpty = false := by simpa using hne
  simp [readRun, htake, hdrop, readMark, hnil]

theorem readRun_token {text : String} (h : Request.IsToken text) {mark : UInt8}
    (hmark : isTokenByte mark = false) (fault : HeadFault) (rest : Bytes) :
    readRun isTokenByte mark fault (Text.utf8 text ++ mark :: rest) = .ok (Text.utf8 text, rest) :=
  readRun_word h.octets (utf8_ne_nil h.ne_empty) hmark fault rest

theorem readTarget_target {target : String} (h : Request.IsTarget target) (rest : Bytes) :
    readTarget (Text.utf8 target ++ space :: rest) = .ok (target, rest) := by
  have hword : ∀ b ∈ Text.utf8 target, isTargetByte b = true := fun b hb =>
    isTargetByte_of_range (h.octets b hb)
  have hspace : isTargetByte space = false := by decide
  rw [readTarget_eq, readWord_eq]
  simp [readRun_word hword (utf8_ne_nil h.ne_empty) hspace, Text.ofUtf8?_utf8]

theorem readVersion_text (version : Version) (rest : Bytes) :
    readVersion (Text.utf8 version.text ++ rest) = .ok (version, rest) := by
  have hlength : (Text.utf8 version.text).length = 8 := by cases version <;> rfl
  rw [readVersion, if_neg (by rw [List.length_append]; omega), List.take_left' hlength,
    List.drop_left' hlength]
  cases version <;> rfl

theorem readRequestLine_line (d : Request.Draft) (rest : Bytes) :
    readRequestLine (d.requestLine ++ rest) = .ok ((d.method, d.target, d.version), rest) := by
  have hspace : isTokenByte space = false := by decide
  rw [readRequestLine_eq, readWord_eq]
  simp [Request.Draft.requestLine, readRun_token d.isToken_method hspace,
    readTarget_target d.isTarget_target, readVersion_text]

/-! ## The header lines -/

theorem dropWhile_eq_self {member : UInt8 → Bool} {s : Bytes}
    (h : ∀ b ∈ s.head?, member b = false) : s.dropWhile member = s := by
  cases s with
  | nil => rfl
  | cons b s => simp [h b rfl]

theorem trimEnd_eq_self {value : Bytes} (h : ∀ b ∈ value.getLast?, isBlank b = false) :
    trimEnd value = value := by
  rw [trimEnd, dropWhile_eq_self (by rwa [List.head?_reverse]), List.reverse_reverse]

/-- A value has the blank before it and the line end after it left out, and no octet more. -/
theorem readFieldValue_value {value : String} (h : Request.IsFieldValue value) (rest : Bytes) :
    readFieldValue (space :: (Text.utf8 value ++ cr :: lf :: rest)) =
      .ok (Text.utf8 value, rest) := by
  have hblank : (space :: (Text.utf8 value ++ cr :: lf :: rest)).dropWhile isBlank =
      Text.utf8 value ++ cr :: lf :: rest := by
    rw [List.dropWhile_cons_of_pos (by decide)]
    refine dropWhile_eq_self fun b hb => ?_
    rw [List.head?_append, List.head?_cons] at hb
    cases hv : (Text.utf8 value).head? with
    | none =>
      -- an empty value: the line end comes first
      rw [hv] at hb
      cases hb
      decide
    | some first =>
      rw [hv] at hb
      cases hb
      exact h.not_blank_head _ hv
  have hvalue : ∀ b ∈ Text.utf8 value, isFieldByte b = true := fun b hb =>
    isFieldByte_of_range (h.octets b hb)
  have hcr : isFieldByte cr = false := by decide
  obtain ⟨htake, hdrop⟩ := span_append hvalue hcr (lf :: rest)
  rw [readFieldValue_eq]
  simp only [hblank, htake, hdrop, readValueEnd, lineEnd_crlf, andThen_ok,
    trimEnd_eq_self h.not_blank_last]

theorem readField_line {field : String × String} (hname : Request.IsToken field.1)
    (hvalue : Request.IsFieldValue field.2) (rest : Bytes) :
    readField (Request.Draft.fieldLine field ++ rest) =
      .ok ((field.1, Text.utf8 field.2), rest) := by
  have hcolon : isTokenByte colon = false := by decide
  rw [readField_eq]
  simp [Request.Draft.fieldLine, readRun_token hname hcolon, readFieldValue_value hvalue]

theorem readLines_line {field : String × String} (hname : Request.IsToken field.1)
    (hvalue : Request.IsFieldValue field.2)
    (next : String × Bytes → Bytes → Except RequestError (List (String × Bytes) × Bytes))
    (rest : Bytes) :
    readLines next (Request.Draft.fieldLine field ++ rest) =
      next (field.1, Text.utf8 field.2) rest := by
  obtain ⟨b, tail, hb, hcr, hlf⟩ := exists_cons_of_isToken hname
  rw [← andThen_ok (field.1, Text.utf8 field.2) rest next, ← readField_line hname hvalue rest,
    Request.Draft.fieldLine, hb]
  exact if_neg (by simp [hcr, hlf])

/-- Header lines are read as they were written, unless they are too many. By induction on the
lines; each takes some of the room. -/
theorem readFields_lines {fields : List (String × String)}
    (hname : ∀ field ∈ fields, Request.IsToken field.1)
    (hvalue : ∀ field ∈ fields, Request.IsFieldValue field.2) (room : Nat) (body : Bytes) :
    readFields room (fields.flatMap Request.Draft.fieldLine ++ cr :: lf :: body) =
      if fields.length ≤ room then .ok (fields.map fun field => (field.1, Text.utf8 field.2), body)
      else .error (.malformed .tooManyHeaders) := by
  induction fields generalizing room with
  | nil => cases room <;> simp [readFields_zero, readFields_succ, readLines]
  | cons field fields ih =>
    obtain ⟨hname₀, hname⟩ := List.forall_mem_cons.mp hname
    obtain ⟨hvalue₀, hvalue⟩ := List.forall_mem_cons.mp hvalue
    rw [List.flatMap_cons, List.append_assoc]
    cases room with
    | zero =>
      rw [readFields_zero, readLines_line hname₀ hvalue₀]
      rfl
    | succ room =>
      rw [readFields_succ, readLines_line hname₀ hvalue₀, ih hname hvalue]
      by_cases hroom : fields.length ≤ room
      · simp [hroom]
      · simp [hroom, andThen]

/-- The whole head. -/
theorem read_head_body (d : Request.Draft) :
    read (d.head ++ d.body) =
      if d.fields.length ≤ maxFields then
        .ok (⟨d.method, d.target, d.version,
          d.fields.map fun field => (field.1, Text.utf8 field.2)⟩, d.body)
      else .error (.malformed .tooManyHeaders) := by
  obtain ⟨b, tail, hb, hcr, hlf⟩ := exists_cons_of_isToken d.isToken_method
  have hskip : blankLines (d.head ++ d.body) = .ok ((), d.requestLine ++
      (d.fields.flatMap Request.Draft.fieldLine ++ cr :: lf :: d.body)) := by
    rw [Request.Draft.head, Request.Draft.requestLine, hb]
    simpa using blankLines_emptyLines d.emptyLines ⟨hcr, hlf⟩ _
  rw [read_eq]
  simp only [hskip, andThen_ok, readRequestLine_line,
    readFields_lines d.isToken_name d.isFieldValue_value]
  split <;> rfl

end Head

namespace Request

theorem headersOf_utf8 (fields : List (String × String)) :
    headersOf (fields.map fun field => (field.1, Text.utf8 field.2)) = .ofList fields := by
  have hfield : ∀ field : String × String,
      (Text.ofUtf8? (Text.utf8 field.2)).map (fun value => (field.1, value)) = some field :=
    fun field => by rw [Text.ofUtf8?_utf8, Option.map_some]
  simp only [headersOf, List.filterMap_map, Function.comp_def, hfield, List.filterMap_some]

theorem queryParam?_eq_some (r : Request) (name value : String) :
    r.queryParam? name = some value ↔ ∃ before after,
      r.params = before ++ (name, value) :: after ∧ ∀ pair ∈ after, pair.1 ≠ name := by
  have hlast (pair : String × String) :
      (r.params.filter fun pair => pair.1 == name).getLast? = some pair ↔
        pair.1 = name ∧ ∃ before after,
          r.params = before ++ pair :: after ∧ ∀ pair ∈ after, pair.1 ≠ name := by
    rw [List.getLast?_eq_head?_reverse, ← List.filter_reverse, List.head?_filter,
      List.find?_eq_some_iff_append]
    simp only [beq_iff_eq, Bool.not_eq_true', beq_eq_false_iff_ne]
    refine and_congr_right fun _ => ⟨?_, ?_⟩
    · rintro ⟨after, before, hall, hafter⟩
      have hparams := congrArg List.reverse hall
      exact ⟨before.reverse, after.reverse, by simpa using hparams, by simpa using hafter⟩
    · rintro ⟨before, after, hall, hafter⟩
      exact ⟨after.reverse, before.reverse, by simp [hall], by simpa using hafter⟩
  rw [queryParam?, Option.map_eq_some_iff]
  constructor
  · rintro ⟨pair, hpair, rfl⟩
    obtain ⟨rfl, hall⟩ := (hlast pair).mp hpair
    exact hall
  · exact fun hall => ⟨(name, value), (hlast _).mpr ⟨rfl, hall⟩, rfl⟩

theorem ofText_eq_iff {m : Method} (h : m.isCustom = false) (name : String) :
    Method.ofText name = m ↔ name = m.text := by
  constructor
  · rintro rfl
    exact (Method.text_ofText name).symm
  · rintro rfl
    cases m with
    | custom name => cases h
    | _ => rfl

/-- The request that a draft is read as. -/
def Draft.request (d : Draft) : Request :=
  ofHead ⟨d.method, d.target, d.version, d.fields.map fun field => (field.1, Text.utf8 field.2)⟩
    d.body

theorem Draft.headers_request (d : Draft) : d.request.headers = .ofList d.fields :=
  headersOf_utf8 d.fields

theorem readAs_request (d : Draft) : d.ReadAs d.request where
  method := Method.text_ofText d.method
  standard m hm := ofText_eq_iff hm d.method
  target := ⟨of_splitTarget d.target, mark_not_mem_splitTarget d.target⟩
  params name value := by
    rw [queryParam?_eq_some, params]
    split
    · rename_i hquery
      simp [hquery]
    · rename_i query hquery
      simp [hquery]
  version := rfl
  fields := congrArg Headers.fields d.headers_request
  body := rfl

theorem parse_draft (d : Draft) :
    parse (d.head ++ d.body) =
      if d.fields.length ≤ Head.maxFields then .ok (d.request, d.head.length)
      else .error (.malformed .tooManyHeaders) := by
  have hread := Head.read_head_body d
  split at hread
  · rename_i hroom
    simp only [parse, hread, hroom, if_true, List.length_append, Nat.add_sub_cancel]
    rfl
  · rename_i hroom
    simp only [parse, hread, hroom, if_false]

/-- **What is written is what is read.** A request with at most 64 header lines is read as it was
written: with its method, target, version, header lines in their order, and body, which starts
right after the head. With more header lines it is refused for their number. -/
theorem parse_head_body (d : Draft) :
    (d.fields.length ≤ 64 →
      ∃ r, parse (d.head ++ d.body) = .ok (r, d.head.length) ∧ d.ReadAs r) ∧
    (64 < d.fields.length →
      parse (d.head ++ d.body) = .error (.malformed .tooManyHeaders)) := by
  rw [parse_draft]
  exact ⟨fun hroom => ⟨d.request, if_pos hroom, readAs_request d⟩,
    fun hroom => if_neg (Nat.not_le.mpr hroom)⟩

/-- A request after two empty lines, with a custom method, a query that repeats a parameter, a
header that repeats in another spelling, and an empty value. -/
def purgeDraft : Draft where
  emptyLines := 2
  method := "PURGE"
  target := "/café?q=1&q=2"
  version := .http10
  fields := [("Accept", "a\tb"), ("accept", ""), ("X-Title", "café au lait")]
  body := [0, 13, 10]

theorem parse_purgeDraft :
    ∃ r, parse (purgeDraft.head ++ purgeDraft.body) = .ok (r, purgeDraft.head.length) ∧
      purgeDraft.ReadAs r :=
  (parse_head_body purgeDraft).1 (by decide)

end Request
end HttpCache
