import HttpCache.Proofs.Entry.Codec

/-!
# HttpCache.Proofs.Entry.ByName

An entry is read from any text that has its members by name, and from a list of their values.

* `decode_object`, `decode_list` — texts that are read as an entry.
* `malformed_object`, `malformed_list` — texts that never are.
* `decode_by_name` — the four together.
* `malformed_of_surrogate_name` — a name in which half of a surrogate pair stands alone is no
  name, even for a member of no interest.
-/

namespace HttpCache
namespace Entry

open Json (Spelling Tree Spaced)

/-! ## Objects and lists -/

theorem decode_object {e : Entry} {status : Status} (hstatus : e.status? = .ok status)
    {members : List (Spelling × Tree)} {data : Bytes} (h : e.Describes members)
    (hs : Spaced (Tree.object members).tokens data) : decode data = .ok e := by
  obtain ⟨t, ht, hread⟩ := read_of_describes h hs
  exact decode_of_read hread ht hstatus

theorem decode_list {e : Entry} {status : Status} (hstatus : e.status? = .ok status)
    {value : Member → Tree} {data : Bytes} (h : ∀ m, e.Spells m (value m))
    (hs : Spaced (Tree.list (Member.all.map value)).tokens data) : decode data = .ok e := by
  obtain ⟨s, hbody, hread⟩ := read_list hs
  obtain ⟨t, ht, hlist⟩ := readList_spaced h hbody
  exact decode_of_read (hread.trans hlist) ht hstatus

theorem malformed_object {members : List (Spelling × Tree)} {data : Bytes}
    (hs : Spaced (Tree.object members).tokens data)
    (h : (∃ m, (knownMembers members).count m ≠ 1) ∨ ∃ member ∈ members, member.1.text? = none) :
    ∃ cause, decode data = .error (.malformed cause) := by
  obtain ⟨s, hbody, hread⟩ := read_object hs
  refine malformed_of_read fun e t heq => ?_
  obtain ⟨htexts, honce⟩ := of_readObject hbody (hread.symm.trans heq)
  rcases h with ⟨m, hm⟩ | ⟨member, hmem, hname⟩
  · exact hm (honce m)
  · exact htexts member hmem hname

theorem malformed_list {items : List Tree} {data : Bytes}
    (hs : Spaced (Tree.list items).tokens data) (h : items.length ≠ 4) :
    ∃ cause, decode data = .error (.malformed cause) := by
  obtain ⟨s, hbody, hread⟩ := read_list hs
  refine malformed_of_read fun e t heq => ?_
  exact h (length_of_readList hbody (hread.symm.trans heq))

/-- **Members are found by name.** An entry is read from every object that has its four members
in some order, among members of other names and with any blanks, and from the list of the four
values. An object that lacks one of the four, has one of them twice or has a name that is no text
is refused, and so is a list of another length. -/
theorem decode_by_name (e : Entry) {status : Status} (hstatus : e.status? = .ok status) :
    (∀ members data, e.Describes members → Spaced (Tree.object members).tokens data →
      decode data = .ok e) ∧
    (∀ value data, (∀ m, e.Spells m (value m)) →
      Spaced (Tree.list (Member.all.map value)).tokens data → decode data = .ok e) ∧
    (∀ m, ∃ tree, e.Spells m tree ∧ tree.tokens.flatten = e.encodeMember m) ∧
    (∀ members data, Spaced (Tree.object members).tokens data →
      ((∃ m, (knownMembers members).count m ≠ 1) ∨
        ∃ member ∈ members, member.1.text? = none) →
      ∃ cause, decode data = .error (.malformed cause)) ∧
    ∀ items data, Spaced (Tree.list items).tokens data → items.length ≠ 4 →
      ∃ cause, decode data = .error (.malformed cause) :=
  ⟨fun _ _ h hs => decode_object hstatus h hs, fun _ _ h hs => decode_list hstatus h hs,
    fun m => ⟨e.tree m, e.spells_tree m, e.flatten_tree m⟩,
    fun _ _ hs h => malformed_object hs h, fun _ _ hs h => malformed_list hs h⟩

/-! ## Two texts of one entry -/

/-- An entry whose numbers have few digits. -/
def smallEntry : Entry := ⟨.empty, [], 200, 5⟩

/-- The members of the small entry out of order, one with an escape in its name, around one of
another name whose value is nested. -/
def mixedMembers : List (Spelling × Tree) :=
  [(.ofString "expiration", smallEntry.tree .expiration),
    (.code (.ofNat 0x68) :: Spelling.ofString "eader", smallEntry.tree .header),
    (.ofString "x", .list [.object [([], .null)], .number ⟨true, .zero, none, none⟩]),
    (.ofString "body", smallEntry.tree .body),
    (.ofString "status_code", smallEntry.tree .statusCode)]

def mixedText : Bytes :=
  Text.utf8 (" \x7b \"expiration\" : 5 , \"\\u0068eader\" : [ ] ," ++
    " \"x\" : [ \x7b \"\" : null \x7d , -0 ] , \"body\" : \"\" , \"status_code\" : 200 \x7d")

theorem mixedText_eq :
    mixedText = (Tree.object mixedMembers).tokens.flatMap (Ascii.space :: ·) := by
  decide +kernel

theorem spaced_mixedText : Spaced (Tree.object mixedMembers).tokens mixedText := by
  rw [mixedText_eq]
  exact Json.spaced_flatMap (by decide) _

theorem knownMembers_mixedMembers :
    knownMembers mixedMembers = [.expiration, .header, .body, .statusCode] := by
  decide +kernel

theorem describes_mixedMembers : smallEntry.Describes mixedMembers where
  texts := by
    have hall : ∀ member ∈ mixedMembers, member.1.text?.isSome = true := by decide +kernel
    exact fun member hmem => Option.isSome_iff_exists.mp (hall member hmem)
  spells := by
    intro member hmem m hm
    simp only [mixedMembers, List.mem_cons, List.not_mem_nil, or_false] at hmem
    have hvalue : ∀ k, Member.ofSpelling? member.1 = some k → member.2 = smallEntry.tree k →
        smallEntry.Spells m member.2 := by
      intro k hk htree
      cases Option.some.inj (hk.symm.trans hm)
      exact htree ▸ smallEntry.spells_tree m
    rcases hmem with rfl | rfl | rfl | rfl | rfl
    · exact hvalue .expiration (by decide +kernel) rfl
    · exact hvalue .header (by decide +kernel) rfl
    · have hnone : Member.ofSpelling? (.ofString "x") = none := by decide +kernel
      rw [hnone] at hm
      cases hm
    · exact hvalue .body (by decide +kernel) rfl
    · exact hvalue .statusCode (by decide +kernel) rfl
  once := by
    rw [knownMembers_mixedMembers]
    intro m
    cases m <;> rfl

/-- The mixed text is read as the small entry. -/
theorem decode_mixedText :
    smallEntry.status? = .ok .ok ∧ smallEntry.Describes mixedMembers ∧
      Spaced (Tree.object mixedMembers).tokens mixedText ∧ decode mixedText = .ok smallEntry := by
  have hstatus : smallEntry.status? = .ok .ok := by decide
  obtain ⟨hobject, -⟩ := decode_by_name smallEntry hstatus
  exact ⟨hstatus, describes_mixedMembers, spaced_mixedText,
    hobject mixedMembers mixedText describes_mixedMembers spaced_mixedText⟩

/-- The members of the small entry behind one whose name is half of a surrogate pair. -/
def surrogateMembers : List (Spelling × Tree) :=
  ([.code (.ofNat 0xD800)], .number ⟨false, .zero, none, none⟩) :: smallEntry.written

def surrogateText : Bytes :=
  Text.utf8 ("\x7b\"\\ud800\":0,\"header\":[],\"body\":\"\",\"status_code\":200," ++
    "\"expiration\":5\x7d")

theorem surrogateText_eq : surrogateText = (Tree.object surrogateMembers).tokens.flatten := by
  decide +kernel

/-- A member of another name keeps the small entry from being read, since its name is no text. -/
theorem malformed_of_surrogate_name :
    smallEntry.status? = .ok .ok ∧
      Spaced (Tree.object surrogateMembers).tokens surrogateText ∧
      (∀ member ∈ surrogateMembers, ∀ m, Member.ofSpelling? member.1 = some m →
        smallEntry.Spells m member.2) ∧
      (∀ m, (knownMembers surrogateMembers).count m = 1) ∧
      ∃ cause, decode surrogateText = .error (.malformed cause) := by
  have hspaced : Spaced (Tree.object surrogateMembers).tokens surrogateText := by
    rw [surrogateText_eq]
    exact Json.spaced_flatten _
  refine ⟨by decide, hspaced, ?_, ?_, ?_⟩
  · intro member hmem m hm
    rcases List.mem_cons.mp hmem with rfl | hmem
    · cases hm
    · exact smallEntry.describes_written.spells member hmem m hm
  · have hknown : knownMembers surrogateMembers = Member.all := by decide +kernel
    rw [hknown]
    intro m
    cases m <;> rfl
  · exact malformed_object hspaced (.inr ⟨_, List.mem_cons_self, rfl⟩)

end Entry
end HttpCache
