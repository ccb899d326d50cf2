import HttpCache.Proofs.Entry.Members
import HttpCache.Proofs.Json.Written

/-!
# HttpCache.Proofs.Entry.Codec

The stored form of an entry holds the whole entry.

* `Entry.tree`, `Entry.written` — what is written for a member; the members in order.
* `Entry.toValue` — the entry as a value of the general writer, which here never fails.
* `decode_encode_entry` — the whole stored form is read back; only a status code that is not
  known keeps it from being an entry again.
-/

namespace HttpCache

theorem Headers.encode_eq (h : Headers) : h.encode = Json.array (h.fields.map Json.pair) := rfl

namespace Entry

open Json (Spelling Tree Spaced)

/-! ## What is written -/

theorem encodeMember_body (e : Entry) : e.encodeMember .body = Json.quoted e.bodyText := by
  rw [Json.quoted, utf8_bodyText]
  rfl

/-- The value that is written for a member. -/
def tree (e : Entry) : Member → Tree
  | .header => .list (e.headers.fields.map .ofPair)
  | .body => .text (.ofString e.bodyText)
  | .statusCode => .number (.ofInt e.statusCode.toNat)
  | .expiration => .number (.ofInt e.expiration.toInt)

theorem spells_tree (e : Entry) (m : Member) : e.Spells m (e.tree m) := by
  cases m with
  | header =>
    refine ⟨_, rfl, ?_⟩
    rw [List.forall₂_map_left_iff, List.forall₂_same]
    exact fun field _ => Json.spellsPair_ofPair field
  | body => exact ⟨_, rfl, Json.text?_ofString _⟩
  | statusCode => exact ⟨_, rfl, (Json.octets_ofInt _).trans (Json.natural_eq_integer _).symm⟩
  | expiration => exact ⟨_, rfl, Json.octets_ofInt _⟩

theorem flatten_tree (e : Entry) (m : Member) : (e.tree m).tokens.flatten = e.encodeMember m := by
  cases m with
  | header =>
    rw [tree, Json.flatten_list, List.map_map, encodeMember, Headers.encode_eq]
    exact congrArg Json.array (List.map_congr_left fun field _ => Json.flatten_ofPair field)
  | body =>
    rw [encodeMember_body, ← Json.token_ofString]
    simp [tree, Tree.tokens]
  | statusCode => simp [tree, Tree.tokens, encodeMember, Json.octets_ofInt, Json.natural_eq_integer]
  | expiration => simp [tree, Tree.tokens, encodeMember, Json.octets_ofInt]

/-- The members as they are written. -/
def written (e : Entry) : List (Spelling × Tree) :=
  Member.all.map fun m => (.ofString m.name, e.tree m)

theorem flatten_written (e : Entry) : (Tree.object e.written).tokens.flatten = e.encode := by
  have hobject := Json.flatten_object (Member.all.map fun m => (m.name, e.tree m))
  rw [List.map_map, List.map_map] at hobject
  rw [encode, written, ← List.map_congr_left fun m _ => congrArg (m.name, ·) (e.flatten_tree m)]
  exact hobject

theorem spaced_encode (e : Entry) : Spaced (Tree.object e.written).tokens e.encode :=
  e.flatten_written ▸ Json.spaced_flatten _

theorem ofSpelling?_ofString (m : Member) : Member.ofSpelling? (.ofString m.name) = some m := by
  rw [Member.ofSpelling?, Json.text?_ofString, Option.bind_some, Member.ofName?_name]

theorem knownMembers_written (e : Entry) : knownMembers e.written = Member.all := by
  simp [knownMembers, written, List.filterMap_map, ofSpelling?_ofString]

theorem describes_written (e : Entry) : e.Describes e.written where
  texts := by
    intro member hmem
    obtain ⟨m, -, rfl⟩ := List.mem_map.mp hmem
    exact ⟨m.name, Json.text?_ofString m.name⟩
  spells := by
    intro member hmem k hk
    obtain ⟨m, -, rfl⟩ := List.mem_map.mp hmem
    have hm : m = k := Option.some.inj ((ofSpelling?_ofString m).symm.trans hk)
    exact hm ▸ e.spells_tree m
  once := by
    rw [knownMembers_written]
    intro m
    cases m <;> rfl

/-! ## What is read -/

theorem read_encode (e : Entry) : ∃ t, Spaced [] t ∧ read e.encode = .ok (e, t) :=
  read_of_describes e.describes_written e.spaced_encode

theorem document_encode (e : Entry) : Json.document read e.encode = .ok e := by
  obtain ⟨t, ht, hread⟩ := e.read_encode
  exact document_of_read hread ht

theorem decode_encode_of_status {e : Entry} {status : Status} (h : e.status? = .ok status) :
    decode e.encode = .ok e := by
  rw [decode, document_encode]
  simp only [h]

theorem status?_of_decode {data : Bytes} {e : Entry} (h : decode data = .ok e) :
    ∃ status, e.status? = .ok status := (decode_eq_ok h).2

theorem status?_make (headers : Headers) (body : Bytes) (status : Status) (ttl : Span)
    (wall : Int) : (make headers body status ttl wall).status? = .ok status := by
  have hcode : (UInt16.ofNat status.code).toNat = status.code := by cases status <;> rfl
  simp only [status?, make, hcode, Status.ofCode?_code]

/-! ## The whole stored form -/

/-- The entry as a value of the general writer. -/
def toValue (e : Entry) : Json.Value :=
  .map [
    (.text Member.header.name,
      .list (e.headers.fields.map fun field => .list [.text field.1, .text field.2])),
    (.text Member.body.name, .text e.bodyText),
    (.text Member.statusCode.name, .number e.statusCode.toNat),
    (.text Member.expiration.name, .number e.expiration.toInt)]

theorem encodeItems_pairs (fields : List (String × String)) :
    Json.Value.encodeItems (fields.map fun field => .list [.text field.1, .text field.2]) =
      .ok (fields.map Json.pair) := by
  induction fields with
  | nil => simp [Json.Value.encodeItems]
  | cons field fields ih =>
    simp [Json.Value.encodeItems, Json.Value.encode, ih, Json.pair]

theorem encode_toValue (e : Entry) : e.toValue.encode = .ok e.encode := by
  simp only [toValue, Json.Value.encode, Json.Value.encodeEntries, Json.Value.keyText?,
    encodeItems_pairs]
  rw [← encodeMember_body, ← Json.natural_eq_integer]
  rfl

/-- **The stored form is lossless.** Every entry can be written, and what is written is read back
as the same entry, unless its status code is not a known one: then that code is the error. -/
theorem decode_encode_entry (e : Entry) :
    e.toValue.encode = .ok e.encode ∧
      decode e.encode =
        if ∃ status ∈ Status.all, status.code = e.statusCode.toNat then .ok e
        else .error (.unknownStatus e.statusCode) := by
  refine ⟨encode_toValue e, ?_⟩
  cases hs : Status.ofCode? e.statusCode.toNat with
  | some status =>
    have hknown : ∃ status ∈ Status.all, status.code = e.statusCode.toNat :=
      ⟨status, List.mem_of_find?_eq_some hs, Status.code_of_ofCode? hs⟩
    have hstatus : e.status? = .ok status := by rw [status?, hs]
    rw [if_pos hknown]
    exact decode_encode_of_status hstatus
  | none =>
    have hunknown : ¬∃ status ∈ Status.all, status.code = e.statusCode.toNat := by
      rintro ⟨status, hmem, hcode⟩
      have hne := List.find?_eq_none.mp hs status hmem
      exact hne (by simpa using hcode)
    rw [if_neg hunknown, decode, document_encode]
    simp only [status?, hs]

end Entry
end HttpCache
