import HttpCache.Entry.Codec
import HttpCache.Proofs.Json.Passing

/-!
# HttpCache.Proofs.Entry.Passing

What is read as an entry is what the skipper passes over.

* `decode_eq_ok`, `read_eq_ok`, `readObject_eq_ok`, `readList_eq_ok` — an answer of a reader in the
  answers of its parts.
* `passesTo_of_readValue`, `passesTo_of_readMember` — the value of a member.
* `skipNext_of_readMembers`, `skipNext_of_readItems` — the members of an object, and the items of
  a list.
* `passesTo_of_read` — a whole entry.
* `rest_of_read_append` — octets that are added at the end are left over, so that no entry ends
  before the end of its text.
-/

namespace HttpCache

open Json (PassesTo skipNext)

theorem Headers.passesTo_of_read {s t : Bytes} {h : Headers} (hr : read s = .ok (h, t)) :
    PassesTo s t := by
  unfold read at hr
  split at hr
  · cases hr
  · rename_i hpairs
    cases hr
    exact Json.passesTo_of_readPairs hpairs

namespace Entry

/-! ## The parts of an answer -/

theorem readBody_eq_ok {after : Bytes → Bytes} {s t body : Bytes}
    (h : readBody after s = .ok (body, t)) :
    ∃ text, Json.readTextValue s = .ok (text, t) ∧
      Base64.decode (Text.utf8 text) = .ok body := by
  unfold readBody at h
  split at h
  · cases h
  · rename_i htext
    split at h
    · cases h
    · rename_i hdecode
      cases h
      exact ⟨_, htext, hdecode⟩

theorem complete_eq_ok {d : Draft} {e : Entry} (h : d.complete = .ok e) :
    d = ⟨some e.headers, some e.body, some e.statusCode, some e.expiration⟩ := by
  obtain ⟨headers, body, statusCode, expiration⟩ := d
  unfold Draft.complete at h
  split at h
  · cases h
  · cases h
  · cases h
  · cases h
  · rename_i hheaders hbody hstatusCode hexpiration
    cases h
    cases hheaders
    cases hbody
    cases hstatusCode
    cases hexpiration
    rfl

/-- What follows a name is a colon and one value: of the member with this name, which is not there
yet, or of none. -/
theorem readMember_eq_ok {name : String} {d d' : Draft} {s t : Bytes}
    (h : readMember name d s = .ok (d', t)) :
    ∃ u, Json.readColon s = .ok u ∧
      ((∃ m, Member.ofName? name = some m ∧ d.has m = false ∧
          readValue Json.afterObject m d u = .ok (d', t)) ∨
        (Member.ofName? name = none ∧ Json.skipValue u = .ok t ∧ d' = d)) := by
  unfold readMember at h
  split at h
  · rename_i m hm
    split at h
    · cases h
    · rename_i hfree
      split at h
      · cases h
      · rename_i hcolon
        exact ⟨_, hcolon, .inl ⟨m, hm, Bool.eq_false_iff.mpr hfree, h⟩⟩
  · rename_i hm
    split at h
    · cases h
    · rename_i hcolon
      split at h
      · cases h
      · rename_i hskip
        cases h
        exact ⟨_, hcolon, .inr ⟨hm, hskip, rfl⟩⟩

theorem readMembers_eq_ok {first : Bool} {d d' : Draft} {s t : Bytes}
    (h : readMembers first d s = .ok (d', t)) :
    (Json.nextKey first s = .ok (none, t) ∧ d' = d) ∨
      ∃ name u d₁ v, Json.nextKey first s = .ok (some name, u) ∧
        readMember name d u = .ok (d₁, v) ∧ readMembers false d₁ v = .ok (d', t) := by
  rw [readMembers] at h
  split at h
  · cases h
  · rename_i hk
    cases h
    exact .inl ⟨hk, rfl⟩
  · rename_i hk
    split at h
    · cases h
    · rename_i hm
      exact .inr ⟨_, _, _, _, hk, hm, h⟩

theorem readObject_eq_ok {e : Entry} {s t : Bytes} (h : readObject s = .ok (e, t)) :
    ∃ d, readMembers true .empty s = .ok (d, t) ∧ d.complete = .ok e := by
  unfold readObject at h
  split at h
  · cases h
  · rename_i hmembers
    split at h
    · cases h
    · rename_i hcomplete
      cases h
      exact ⟨_, hmembers, hcomplete⟩

theorem readItems_cons_eq_ok {n : Nat} {d d' : Draft} {m : Member} {members : List Member}
    {s t : Bytes} (h : readItems n d (m :: members) s = .ok (d', t)) :
    ∃ u d₁ v, Json.nextItem (n == 0) s = .ok (true, u) ∧
      readValue Json.afterList m d u = .ok (d₁, v) ∧
      readItems (n + 1) d₁ members v = .ok (d', t) := by
  simp only [readItems] at h
  split at h
  · cases h
  · cases h
  · rename_i hnext
    split at h
    · cases h
    · rename_i hv
      exact ⟨_, _, _, hnext, hv, h⟩

theorem readList_eq_ok {e : Entry} {s t : Bytes} (h : readList s = .ok (e, t)) :
    ∃ d u, readItems 0 .empty Member.all s = .ok (d, u) ∧ Json.closeList u = .ok t ∧
      d.complete = .ok e := by
  unfold readList at h
  split at h
  · cases h
  · rename_i hitems
    split at h
    · cases h
    · rename_i hclose
      split at h
      · cases h
      · rename_i hcomplete
        cases h
        exact ⟨_, _, hitems, hclose, hcomplete⟩

/-- An entry is an object or a list. -/
theorem read_eq_ok {e : Entry} {s t : Bytes} (h : read s = .ok (e, t)) :
    (∃ u, Json.skipBlanks s = Ascii.leftBrace :: u ∧ readObject u = .ok (e, t)) ∨
      ∃ u, Json.skipBlanks s = Ascii.leftBracket :: u ∧ readList u = .ok (e, t) := by
  unfold read at h
  split at h
  · cases h
  · rename_i hs
    split at h
    · rename_i hb
      subst hb
      exact .inl ⟨_, hs, h⟩
    · split at h
      · rename_i hb
        subst hb
        exact .inr ⟨_, hs, h⟩
      · cases h

theorem decode_eq_ok {e : Entry} {data : Bytes} (h : decode data = .ok e) :
    (∃ t, read data = .ok (e, t)) ∧ ∃ status, e.status? = .ok status := by
  unfold decode at h
  split at h
  · cases h
  · rename_i hdocument
    split at h
    · cases h
    · rename_i hstatus
      cases h
      refine ⟨?_, _, hstatus⟩
      unfold Json.document at hdocument
      split at hdocument
      · cases hdocument
      · rename_i hread
        split at hdocument
        · cases hdocument
          exact ⟨_, hread⟩
        · cases hdocument

/-! ## What is passed over -/

theorem passesTo_of_readBody {after : Bytes → Bytes} {s t body : Bytes}
    (h : readBody after s = .ok (body, t)) : PassesTo s t := by
  obtain ⟨text, htext, -⟩ := readBody_eq_ok h
  exact Json.passesTo_of_readTextValue htext

theorem passesTo_of_readStatusCode {s t : Bytes} {code : UInt16}
    (h : readStatusCode s = .ok (code, t)) : PassesTo s t := by
  unfold readStatusCode at h
  split at h
  · cases h
  · rename_i hinteger
    cases h
    exact Json.passesTo_of_readIntegerIn hinteger

theorem passesTo_of_readExpiration {s t : Bytes} {second : Int64}
    (h : readExpiration s = .ok (second, t)) : PassesTo s t := by
  unfold readExpiration at h
  split at h
  · cases h
  · rename_i hinteger
    cases h
    exact Json.passesTo_of_readIntegerIn hinteger

theorem passesTo_of_readValue {after : Bytes → Bytes} {member : Member} {d d' : Draft}
    {s t : Bytes} (h : readValue after member d s = .ok (d', t)) : PassesTo s t := by
  cases member with
  | header =>
    simp only [readValue] at h
    split at h
    · cases h
    · rename_i hr; cases h; exact Headers.passesTo_of_read hr
  | body =>
    simp only [readValue] at h
    split at h
    · cases h
    · rename_i hr; cases h; exact passesTo_of_readBody hr
  | statusCode =>
    simp only [readValue] at h
    split at h
    · cases h
    · rename_i hr; cases h; exact passesTo_of_readStatusCode hr
  | expiration =>
    simp only [readValue] at h
    split at h
    · cases h
    · rename_i hr; cases h; exact passesTo_of_readExpiration hr

theorem passesTo_of_readMember {name : String} {d d' : Draft} {s t : Bytes}
    (h : readMember name d s = .ok (d', t)) : ∃ u, Json.readColon s = .ok u ∧ PassesTo u t := by
  obtain ⟨u, hcolon, ⟨m, -, -, hvalue⟩ | ⟨-, hskip, -⟩⟩ := readMember_eq_ok h
  · exact ⟨u, hcolon, passesTo_of_readValue hvalue⟩
  · exact ⟨u, hcolon, Json.passesTo_of_skipValue hskip⟩

theorem skipNext_of_readMembers {first : Bool} {d d' : Draft} {s t : Bytes}
    (h : readMembers first d s = .ok (d', t)) (stack : List Json.Frame) :
    skipNext first .object stack s = Json.skipAfter stack t := by
  fun_induction readMembers first d s with
  | case2 first d s u hk =>
    cases h
    exact Json.skipNext_of_nextKey_end hk stack
  | case4 first d s name rest hk d₁ rest' hm ih =>
    obtain ⟨u, hcolon, hpasses⟩ := passesTo_of_readMember hm
    exact (Json.skipNext_of_nextKey hk hcolon stack).trans ((hpasses _).trans (ih h))
  | _ => cases h

theorem skipNext_of_readItems {n : Nat} {d d' : Draft} {members : List Member} {s t : Bytes}
    (h : readItems n d members s = .ok (d', t)) (stack : List Json.Frame) :
    skipNext (n == 0) .list stack s = skipNext (n + members.length == 0) .list stack t := by
  induction members generalizing n d s with
  | nil => cases h; rfl
  | cons member members ih =>
    obtain ⟨u, d₁, v, hn, hv, hitems⟩ := readItems_cons_eq_ok h
    have hrest := ih hitems
    have hzero : (n + 1 == 0) = false := by simp
    have hzero' : (n + 1 + members.length == 0) = false := by simp
    rw [hzero, hzero'] at hrest
    have hlength : (n + (member :: members).length == 0) = false := by simp
    rw [hlength, ← hrest]
    exact (Json.skipNext_of_nextItem hn stack).trans (passesTo_of_readValue hv _)

theorem skipFirst_of_readObject {e : Entry} {s t : Bytes} (h : readObject s = .ok (e, t))
    (stack : List Json.Frame) : Json.skipFirst .object stack s = Json.skipAfter stack t := by
  obtain ⟨d, hmembers, -⟩ := readObject_eq_ok h
  exact skipNext_of_readMembers hmembers stack

theorem skipFirst_of_readList {e : Entry} {s t : Bytes} (h : readList s = .ok (e, t))
    (stack : List Json.Frame) : Json.skipFirst .list stack s = Json.skipAfter stack t := by
  obtain ⟨d, u, hitems, hclose, -⟩ := readList_eq_ok h
  exact (skipNext_of_readItems hitems stack).trans (Json.skipAfter_of_closeList hclose stack)

/-- The skipper goes through an entry to where it ends. -/
theorem skipFirst_of_read {e : Entry} {s t : Bytes} (h : read s = .ok (e, t)) :
    ∃ (frame : Json.Frame) (rest : Bytes), Json.skipBlanks s = frame.opening :: rest ∧
      ∀ stack, Json.skipFirst frame stack rest = Json.skipAfter stack t := by
  rcases read_eq_ok h with ⟨rest, hs, hobject⟩ | ⟨rest, hs, hlist⟩
  · exact ⟨.object, rest, hs, skipFirst_of_readObject hobject⟩
  · exact ⟨.list, rest, hs, skipFirst_of_readList hlist⟩

theorem passesTo_of_read {e : Entry} {s t : Bytes} (h : read s = .ok (e, t)) : PassesTo s t := by
  obtain ⟨frame, rest, hs, hfirst⟩ := skipFirst_of_read h
  exact Json.passesTo_opening frame hs hfirst

/-- Octets behind an entry are left over. -/
theorem rest_of_read_append {e e' : Entry} {s t more t' : Bytes} (h : read s = .ok (e, t))
    (h' : read (s ++ more) = .ok (e', t')) : t' = t ++ more := by
  obtain ⟨frame, rest, hs, hfirst⟩ := skipFirst_of_read h
  have hskip := (passesTo_of_read h').skipValue
  rw [Json.skipValue_append_of_opening hs hfirst more] at hskip
  cases hskip
  rfl

end Entry
end HttpCache
