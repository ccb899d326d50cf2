import HttpCache.Proofs.Entry.Passing
import HttpCache.Proofs.Json.Lenient
import HttpCache.Proofs.Json.Meaning
import HttpCache.Proofs.Text.Base64

/-!
# HttpCache.Proofs.Entry.Members

The members of an entry are found by their names.

* `Spells`, `knownMembers` — a tree is the value of a member, in any spelling; the members that
  an object names, in order.
* `Describes` — an object has the four members of an entry, among others.
* `readMembers_spaced`, `readItems_spaced` — members are read from such an object, and from the
  list of their values.
* `has_of_readMembers`, `drop_of_readItems` — of an object that was read, each known member stands
  there once; of a list, the items are there.
-/

namespace HttpCache
namespace Entry

open Json (Spelling Tree Spaced Delimited separated)

/-! ## Drafts and members -/

/-- The draft with one member of the entry filled in. -/
def Draft.record (e : Entry) (d : Draft) : Member → Draft
  | .header => { d with headers := some e.headers }
  | .body => { d with body := some e.body }
  | .statusCode => { d with statusCode := some e.statusCode }
  | .expiration => { d with expiration := some e.expiration }

theorem Draft.has_record (e : Entry) (d : Draft) (m other : Member) :
    (d.record e m).has other = (decide (m = other) || d.has other) := by
  cases m <;> cases other <;> rfl

theorem Member.ofName?_name (m : Member) : Member.ofName? m.name = some m := by
  cases m <;> decide

def bodyText (e : Entry) : String := Text.ofAscii (Base64.encode e.body)

theorem utf8_bodyText (e : Entry) : Text.utf8 e.bodyText = Base64.encode e.body :=
  Text.utf8_ofAscii (Base64.encode_ascii e.body)

/-- The tree is the value of one member of the entry. -/
def Spells (e : Entry) : Member → Tree → Prop
  | .header, tree =>
    ∃ items, tree = .list items ∧ List.Forall₂ Tree.SpellsPair items e.headers.fields
  | .body, tree => ∃ ps : Spelling, tree = .text ps ∧ ps.text? = some e.bodyText
  | .statusCode, tree => ∃ n, tree = .number n ∧ n.octets = Json.natural e.statusCode.toNat
  | .expiration, tree => ∃ n, tree = .number n ∧ n.octets = Json.integer e.expiration.toInt

/-- The member whose name is spelled. -/
def Member.ofSpelling? (ps : Spelling) : Option Member := ps.text?.bind ofName?

/-- The known members among those of an object, in order. -/
def knownMembers (members : List (Spelling × Tree)) : List Member :=
  members.filterMap fun member => Member.ofSpelling? member.1

/-- The members of an object are those of the entry, in any order, among others. -/
structure Describes (e : Entry) (members : List (Spelling × Tree)) : Prop where
  /-- Every name is a text. -/
  texts : ∀ member ∈ members, ∃ name, member.1.text? = some name
  spells : ∀ member ∈ members, ∀ m, Member.ofSpelling? member.1 = some m → e.Spells m member.2
  once : ∀ m, (knownMembers members).count m = 1

/-! ## Values and members are read -/

theorem readValue_spells (after : Bytes → Bytes) {e : Entry} {m : Member} (d : Draft) {tree : Tree}
    (h : e.Spells m tree) {more : List Bytes} {s : Bytes} (hd : Delimited more)
    (hs : Spaced (tree.tokens ++ more) s) :
    ∃ t, Spaced more t ∧ readValue after m d s = .ok (d.record e m, t) := by
  cases m with
  | header =>
    obtain ⟨items, rfl, hitems⟩ := h
    obtain ⟨t, ht, hpairs⟩ := Json.readPairs_spaced hitems hs
    refine ⟨t, ht, ?_⟩
    simp only [readValue, Headers.read, hpairs]
    rfl
  | body =>
    obtain ⟨ps, rfl, hps⟩ := h
    obtain ⟨t, ht, htext⟩ := Json.readTextValue_spaced hps hs
    refine ⟨t, ht, ?_⟩
    simp only [readValue, readBody, htext, utf8_bodyText, Base64.decode_encode]
    rfl
  | statusCode =>
    obtain ⟨n, rfl, hn⟩ := h
    have hcode := e.statusCode.toNat_lt
    rw [Tree.tokens, hn, Json.natural_eq_integer] at hs
    obtain ⟨t, ht, hinteger⟩ := Json.readIntegerIn_spaced 0 65535 "u16" (by omega) (by omega)
      (by omega) (by omega) hd hs
    refine ⟨t, ht, ?_⟩
    simp only [readValue, readStatusCode, hinteger, Int.toNat_natCast, UInt16.ofNat_toNat]
    rfl
  | expiration =>
    obtain ⟨n, rfl, hn⟩ := h
    have hlow := e.expiration.le_toInt
    have hhigh := e.expiration.toInt_lt
    rw [Tree.tokens, hn] at hs
    obtain ⟨t, ht, hinteger⟩ := Json.readIntegerIn_spaced (-0x8000000000000000)
      0x7FFFFFFFFFFFFFFF "i64" (by omega) (by omega) (by omega) (by omega) hd hs
    refine ⟨t, ht, ?_⟩
    simp only [readValue, readExpiration, hinteger, Int64.ofInt_toInt]
    rfl

theorem readMember_spaced {e : Entry} {name : String} {value : Tree} {d : Draft}
    (h : ∀ m, Member.ofName? name = some m → d.has m = false ∧ e.Spells m value)
    {more : List Bytes} {s : Bytes} (hd : Delimited more)
    (hs : Spaced ([Ascii.colon] :: (value.tokens ++ more)) s) :
    ∃ t, Spaced more t ∧
      readMember name d s = .ok ((Member.ofName? name).toList.foldl (Draft.record e) d, t) := by
  obtain ⟨u, hu, hcolon⟩ := Json.readColon_spaced hs
  cases hm : Member.ofName? name with
  | some m =>
    obtain ⟨hfree, hspells⟩ := h m hm
    obtain ⟨t, ht, hvalue⟩ := readValue_spells Json.afterObject d hspells hd hu
    refine ⟨t, ht, ?_⟩
    simp only [readMember, hm, hfree, Bool.false_eq_true, if_false, hcolon, hvalue]
    rfl
  | none =>
    obtain ⟨t, hpasses, ht⟩ := Json.passed_tokens value more u hd hu
    refine ⟨t, ht, ?_⟩
    simp only [readMember, hm, hcolon, hpasses.skipValue]
    rfl

theorem knownMembers_cons {name : Spelling} {text : String} (h : name.text? = some text)
    (value : Tree) (members : List (Spelling × Tree)) :
    knownMembers ((name, value) :: members) =
      (Member.ofName? text).toList ++ knownMembers members := by
  rw [knownMembers, List.filterMap_cons, Member.ofSpelling?, h, Option.bind_some, ← knownMembers]
  cases Member.ofName? text <;> rfl

/-- A member that may be filled in is counted among those that are there. -/
theorem has_fill (e : Entry) (d : Draft) (o : Option Member) (k : Member)
    (h : o.toList.count k + (d.has k).toNat ≤ 1) :
    ((o.toList.foldl (Draft.record e) d).has k).toNat = o.toList.count k + (d.has k).toNat := by
  cases o with
  | none => simp
  | some m =>
    by_cases hm : m = k
    · subst hm
      cases hd : d.has m <;> simp_all [Draft.has_record]
    · simp [Draft.has_record, hm]

theorem readMembers_stop {first : Bool} {d : Draft} {s t : Bytes}
    (h : Json.nextKey first s = .ok (none, t)) : readMembers first d s = .ok (d, t) := by
  rw [readMembers]
  split
  · rename_i hk; rw [h] at hk; cases hk
  · rename_i hk; rw [h] at hk; cases hk; rfl
  · rename_i hk; rw [h] at hk; cases hk

theorem readMembers_step {first : Bool} {d d' : Draft} {s t u : Bytes} {name : String}
    (hk : Json.nextKey first s = .ok (some name, t)) (hm : readMember name d t = .ok (d', u)) :
    readMembers first d s = readMembers false d' u := by
  rw [readMembers]
  split
  · rename_i hk'; rw [hk] at hk'; cases hk'
  · rename_i hk'; rw [hk] at hk'; cases hk'
  · rename_i hk'
    rw [hk] at hk'; cases hk'
    split
    · rename_i hm'; rw [hm] at hm'; cases hm'
    · rename_i hm'; rw [hm] at hm'; cases hm'; rfl

/-- The members up to the closing brace, by induction on them. No known member stands there that
is in the draft already, or a second time. -/
theorem readMembers_spaced {e : Entry} {members : List (Spelling × Tree)}
    (htexts : ∀ member ∈ members, ∃ name, member.1.text? = some name)
    (hspells : ∀ member ∈ members, ∀ m, Member.ofSpelling? member.1 = some m →
      e.Spells m member.2) {first : Bool} {d : Draft} {more : List Bytes} {s : Bytes}
    (honce : ∀ k, (knownMembers members).count k + (d.has k).toNat ≤ 1)
    (hs : Spaced (separated first (Tree.memberTokens members) ++ [Ascii.rightBrace] :: more) s) :
    ∃ t, Spaced more t ∧
      readMembers first d s = .ok ((knownMembers members).foldl (Draft.record e) d, t) := by
  induction members generalizing first d s with
  | nil =>
    obtain ⟨t, ht, hk⟩ := Json.nextKey_close first hs
    exact ⟨t, ht, readMembers_stop hk⟩
  | cons member members ih =>
    obtain ⟨name, value⟩ := member
    obtain ⟨text, htext⟩ := htexts (name, value) List.mem_cons_self
    have hd := Json.delimited_separated .object (Tree.memberTokens members) more
    rw [Tree.memberTokens, separated, List.append_assoc, List.append_assoc] at hs
    rw [knownMembers_cons htext] at honce ⊢
    have hhead : ∀ m, Member.ofName? text = some m → d.has m = false ∧ e.Spells m value := by
      intro m hm
      have hm' : Member.ofSpelling? name = some m := by
        rw [Member.ofSpelling?, htext, Option.bind_some, hm]
      refine ⟨?_, hspells (name, value) List.mem_cons_self m hm'⟩
      have hcount := honce m
      rw [hm, Option.toList_some, List.count_append, List.count_singleton_self] at hcount
      exact Bool.toNat_eq_zero.mp (by omega)
    have hrest : ∀ k, (knownMembers members).count k +
        (((Member.ofName? text).toList.foldl (Draft.record e) d).has k).toNat ≤ 1 := by
      intro k
      have hcount := honce k
      rw [List.count_append] at hcount
      rw [has_fill e d _ k (by omega)]
      omega
    obtain ⟨s₁, h₁, hk⟩ := Json.nextKey_name first htext hs
    obtain ⟨s₂, h₂, hm⟩ := readMember_spaced hhead hd h₁
    obtain ⟨t, ht, hread⟩ := ih (fun other ho => htexts other (List.mem_cons_of_mem _ ho))
      (fun other ho => hspells other (List.mem_cons_of_mem _ ho)) hrest h₂
    refine ⟨t, ht, ?_⟩
    rw [readMembers_step hk hm, hread, List.foldl_append]

/-! ## What was read -/

theorem has_of_readValue {after : Bytes → Bytes} {m : Member} {d d' : Draft} {s t : Bytes}
    (h : readValue after m d s = .ok (d', t)) (k : Member) :
    d'.has k = (decide (m = k) || d.has k) := by
  cases m with
  | header =>
    simp only [readValue] at h
    split at h
    · cases h
    · cases h; cases k <;> rfl
  | body =>
    simp only [readValue] at h
    split at h
    · cases h
    · cases h; cases k <;> rfl
  | statusCode =>
    simp only [readValue] at h
    split at h
    · cases h
    · cases h; cases k <;> rfl
  | expiration =>
    simp only [readValue] at h
    split at h
    · cases h
    · cases h; cases k <;> rfl

theorem has_of_readMember {name : String} {d d' : Draft} {s t : Bytes}
    (h : readMember name d s = .ok (d', t)) (k : Member) :
    (d'.has k).toNat = (Member.ofName? name).toList.count k + (d.has k).toNat := by
  obtain ⟨u, -, ⟨m, hm, hfree, hvalue⟩ | ⟨hm, -, rfl⟩⟩ := readMember_eq_ok h
  · rw [hm, Option.toList_some, has_of_readValue hvalue k]
    by_cases hk : m = k
    · subst hk
      simp [hfree]
    · simp [hk]
  · simp [hm]

/-- Members that were read have texts as names, and each known one that is there afterwards was
there before or stands among them, but not both and not twice. -/
theorem has_of_readMembers {members : List (Spelling × Tree)} {first : Bool} {d d' : Draft}
    {more : List Bytes} {s t : Bytes}
    (hs : Spaced (separated first (Tree.memberTokens members) ++ [Ascii.rightBrace] :: more) s)
    (h : readMembers first d s = .ok (d', t)) :
    (∀ member ∈ members, member.1.text? ≠ none) ∧
      ∀ k, (d'.has k).toNat = (knownMembers members).count k + (d.has k).toNat := by
  induction members generalizing first d s with
  | nil =>
    obtain ⟨t', -, hk⟩ := Json.nextKey_close first hs
    rw [readMembers_stop hk] at h
    cases h
    exact ⟨nofun, fun k => by simp [knownMembers]⟩
  | cons member members ih =>
    obtain ⟨name, value⟩ := member
    have hd := Json.delimited_separated .object (Tree.memberTokens members) more
    rw [Tree.memberTokens, separated, List.append_assoc, List.append_assoc] at hs
    cases htext : name.text? with
    | none =>
      obtain ⟨fault, hk⟩ := Json.nextKey_of_text?_eq_none first htext hs
      rcases readMembers_eq_ok h with ⟨hk', -⟩ | ⟨_, _, _, _, hk', -⟩ <;>
        (rw [hk] at hk'; cases hk')
    | some text =>
      obtain ⟨s₁, h₁, hk⟩ := Json.nextKey_name first htext hs
      rcases readMembers_eq_ok h with ⟨hk', -⟩ | ⟨_, _, d₁, v, hk', hm, hread⟩
      · rw [hk] at hk'
        cases hk'
      · rw [hk] at hk'
        cases hk'
        obtain ⟨s₂, hcolon, hpasses⟩ := passesTo_of_readMember hm
        obtain ⟨s₂', h₂, hcolon'⟩ := Json.readColon_spaced h₁
        rw [hcolon] at hcolon'
        cases hcolon'
        -- the reader leaves what the skipper leaves, so the rest is spaced as well
        obtain ⟨v', hpasses', h₃⟩ := Json.passed_tokens value _ _ hd h₂
        rw [hpasses'.unique hpasses] at h₃
        obtain ⟨htexts, hcount⟩ := ih h₃ hread
        refine ⟨?_, fun k => ?_⟩
        · intro other ho
          rcases List.mem_cons.mp ho with rfl | ho
          · simp [htext]
          · exact htexts other ho
        · rw [hcount k, has_of_readMember hm k, knownMembers_cons htext, List.count_append]
          omega

/-! ## Whole drafts -/

theorem foldl_record (e : Entry) (d : Draft) (ms : List Member) :
    ms.foldl (Draft.record e) d =
      { headers := if .header ∈ ms then some e.headers else d.headers
        body := if .body ∈ ms then some e.body else d.body
        statusCode := if .statusCode ∈ ms then some e.statusCode else d.statusCode
        expiration := if .expiration ∈ ms then some e.expiration else d.expiration } := by
  induction ms generalizing d with
  | nil => simp
  | cons m ms ih =>
    rw [List.foldl_cons, ih]
    cases m <;> simp [Draft.record]

theorem complete_of_mem {e : Entry} {d : Draft} {ms : List Member} (h : ∀ m, m ∈ ms) :
    (ms.foldl (Draft.record e) d).complete = .ok e := by
  simp only [foldl_record, h, if_true, Draft.complete]

theorem has_of_complete {d : Draft} {e : Entry} (h : d.complete = .ok e) (m : Member) :
    d.has m = true := by
  rw [complete_eq_ok h]
  cases m <;> rfl

/-! ## Lists -/

theorem startsItem_tokens (tree : Tree) :
    ∃ b token rest, tree.tokens = (b :: token) :: rest ∧ Json.isBlank b = false ∧
      b ≠ Ascii.rightBracket := by
  obtain ⟨b, token, rest, htokens, hb, hshape⟩ := Json.tokens_start tree
  refine ⟨b, token, rest, htokens, hb, ?_⟩
  rintro rfl
  cases hshape

theorem nextItem_tree {first : Bool} {tree : Tree} {more : List Bytes} {s : Bytes}
    (hs : Spaced (Json.lead first ++ (tree.tokens ++ more)) s) :
    ∃ t, Spaced (tree.tokens ++ more) t ∧ Json.nextItem first s = .ok (true, t) := by
  obtain ⟨b, token, rest, htokens, hb, hne⟩ := startsItem_tokens tree
  rw [htokens] at hs ⊢
  exact Json.nextItem_lead first hb hne hs

theorem readItems_spaced {e : Entry} {value : Member → Tree} (h : ∀ m, e.Spells m (value m))
    {members : List Member} {n : Nat} {d : Draft} {more : List Bytes} {s : Bytes}
    (hs : Spaced (separated (n == 0) (Tree.itemTokens (members.map value)) ++
      [Ascii.rightBracket] :: more) s) :
    ∃ t, Spaced ([Ascii.rightBracket] :: more) t ∧
      readItems n d members s = .ok (members.foldl (Draft.record e) d, t) := by
  induction members generalizing n d s with
  | nil => exact ⟨s, hs, rfl⟩
  | cons m members ih =>
    have hd := Json.delimited_separated .list (Tree.itemTokens (members.map value)) more
    rw [List.map_cons, Tree.itemTokens, separated, List.append_assoc, List.append_assoc] at hs
    obtain ⟨s₁, h₁, hn⟩ := nextItem_tree hs
    obtain ⟨s₂, h₂, hv⟩ := readValue_spells Json.afterList d (h m) hd h₁
    obtain ⟨t, ht, hread⟩ := ih (n := n + 1) (d := d.record e m) h₂
    refine ⟨t, ht, ?_⟩
    simp only [readItems, hn, hv, hread, List.foldl_cons]

/-- Items that were read stand in the list, and the others are left. -/
theorem drop_of_readItems {items : List Tree} {members : List Member} {n : Nat} {d d' : Draft}
    {more : List Bytes} {s t : Bytes}
    (hs : Spaced (separated (n == 0) (Tree.itemTokens items) ++ [Ascii.rightBracket] :: more) s)
    (h : readItems n d members s = .ok (d', t)) :
    members.length ≤ items.length ∧
      Spaced (separated (n + members.length == 0)
        (Tree.itemTokens (items.drop members.length)) ++ [Ascii.rightBracket] :: more) t := by
  induction members generalizing items n d s with
  | nil =>
    cases h
    exact ⟨Nat.zero_le _, hs⟩
  | cons m members ih =>
    cases items with
    | nil =>
      obtain ⟨u, -, hn⟩ := Json.nextItem_close (n == 0) hs
      simp only [readItems, hn] at h
      cases h
    | cons item items =>
      have hd := Json.delimited_separated .list (Tree.itemTokens items) more
      rw [Tree.itemTokens, separated, List.append_assoc, List.append_assoc] at hs
      obtain ⟨s₁, h₁, hn⟩ := nextItem_tree hs
      obtain ⟨s₂, hpasses, h₂⟩ := Json.passed_tokens item _ _ hd h₁
      obtain ⟨u, d₁, v, hn', hv, hitems⟩ := readItems_cons_eq_ok h
      rw [hn] at hn'
      cases hn'
      rw [hpasses.unique (passesTo_of_readValue hv)] at h₂
      obtain ⟨hlength, hdrop⟩ := ih (n := n + 1) h₂ hitems
      have hsum : n + (m :: members).length = n + 1 + members.length := by
        rw [List.length_cons]
        omega
      rw [hsum]
      exact ⟨Nat.succ_le_succ hlength, hdrop⟩

/-! ## Whole texts -/

theorem document_of_read {e : Entry} {data t : Bytes} (h : read data = .ok (e, t))
    (ht : Spaced [] t) : Json.document read data = .ok e := by
  simp only [Json.document, h, ht.skipBlanks_end]

theorem decode_of_read {e : Entry} {data t : Bytes} {status : Status}
    (h : read data = .ok (e, t)) (ht : Spaced [] t) (hstatus : e.status? = .ok status) :
    decode data = .ok e := by
  simp only [decode, document_of_read h ht, hstatus]

theorem malformed_of_read {data : Bytes} (h : ∀ e t, read data ≠ .ok (e, t)) :
    ∃ cause, decode data = .error (.malformed cause) := by
  cases hread : read data with
  | error fault => exact ⟨fault.locate data, by simp only [decode, Json.document, hread]⟩
  | ok r => exact absurd hread (h r.1 r.2)

theorem read_object {members : List (Spelling × Tree)} {data : Bytes}
    (hs : Spaced (Tree.object members).tokens data) :
    ∃ s, Spaced (separated true (Tree.memberTokens members) ++ [[Ascii.rightBrace]]) s ∧
      read data = readObject s := by
  rw [Tree.tokens, Json.bracketed, Json.intercalate_eq_separated] at hs
  obtain ⟨s, h, hskip⟩ := hs.skipBlanks_eq rfl
  refine ⟨s, h, ?_⟩
  rw [read, hskip]
  rfl

theorem read_list {items : List Tree} {data : Bytes}
    (hs : Spaced (Tree.list items).tokens data) :
    ∃ s, Spaced (separated true (Tree.itemTokens items) ++ [[Ascii.rightBracket]]) s ∧
      read data = readList s := by
  rw [Json.tokens_list] at hs
  obtain ⟨s, h, hskip⟩ := hs.skipBlanks_eq rfl
  refine ⟨s, h, ?_⟩
  rw [read, hskip]
  rfl

theorem readObject_spaced {e : Entry} {members : List (Spelling × Tree)}
    (h : e.Describes members) {s : Bytes}
    (hs : Spaced (separated true (Tree.memberTokens members) ++ [[Ascii.rightBrace]]) s) :
    ∃ t, Spaced [] t ∧ readObject s = .ok (e, t) := by
  have honce : ∀ k, (knownMembers members).count k + (Draft.empty.has k).toNat ≤ 1 := by
    intro k
    rw [h.once k]
    cases k <;> decide
  have hmem : ∀ m, m ∈ knownMembers members := by
    intro m
    rw [← List.count_pos_iff, h.once m]
    exact Nat.one_pos
  obtain ⟨t, ht, hread⟩ := readMembers_spaced h.texts h.spells honce hs
  refine ⟨t, ht, ?_⟩
  simp only [readObject, hread, complete_of_mem hmem]

theorem read_of_describes {e : Entry} {members : List (Spelling × Tree)} {data : Bytes}
    (h : e.Describes members) (hs : Spaced (Tree.object members).tokens data) :
    ∃ t, Spaced [] t ∧ read data = .ok (e, t) := by
  obtain ⟨s, hbody, hread⟩ := read_object hs
  obtain ⟨t, ht, hobject⟩ := readObject_spaced h hbody
  exact ⟨t, ht, hread.trans hobject⟩

theorem of_readObject {e : Entry} {members : List (Spelling × Tree)} {s t : Bytes}
    (hs : Spaced (separated true (Tree.memberTokens members) ++ [[Ascii.rightBrace]]) s)
    (h : readObject s = .ok (e, t)) :
    (∀ member ∈ members, member.1.text? ≠ none) ∧ ∀ m, (knownMembers members).count m = 1 := by
  obtain ⟨d, hread, hcomplete⟩ := readObject_eq_ok h
  obtain ⟨htexts, hcount⟩ := has_of_readMembers hs hread
  refine ⟨htexts, fun m => ?_⟩
  have hm := hcount m
  rw [has_of_complete hcomplete m] at hm
  cases m <;> exact hm.symm

theorem readList_spaced {e : Entry} {value : Member → Tree} (h : ∀ m, e.Spells m (value m))
    {s : Bytes}
    (hs : Spaced (separated true (Tree.itemTokens (Member.all.map value)) ++
      [[Ascii.rightBracket]]) s) :
    ∃ t, Spaced [] t ∧ readList s = .ok (e, t) := by
  have hmem : ∀ m, m ∈ Member.all := by
    intro m
    cases m <;> decide
  obtain ⟨s₁, h₁, hread⟩ := readItems_spaced (n := 0) (d := Draft.empty) h hs
  obtain ⟨t, ht, hclose⟩ := Json.closeList_close h₁
  refine ⟨t, ht, ?_⟩
  simp only [readList, hread, hclose, complete_of_mem hmem]

theorem length_of_readList {e : Entry} {items : List Tree} {s t : Bytes}
    (hs : Spaced (separated true (Tree.itemTokens items) ++ [[Ascii.rightBracket]]) s)
    (h : readList s = .ok (e, t)) : items.length = 4 := by
  obtain ⟨d, u, hread, hclose, -⟩ := readList_eq_ok h
  obtain ⟨hlength, hdrop⟩ := drop_of_readItems (n := 0) hs hread
  have hall : Member.all.length = 4 := rfl
  rw [hall] at hlength hdrop
  cases hrest : items.drop 4 with
  | nil =>
    have hle := List.drop_eq_nil_iff.mp hrest
    exact Nat.le_antisymm hle hlength
  | cons item others =>
    rw [hrest, Tree.itemTokens, separated] at hdrop
    obtain ⟨fault, hcomma⟩ := Json.closeList_comma hdrop
    rw [hcomma] at hclose
    cases hclose

end Entry
end HttpCache
