import HttpCache.Proofs.Entry.ByName

/-!
# HttpCache.Proofs.Entry.BodyText

A stored body is written in one way only.

* `TextUnder`, `BodyText` — where the text of a body stands in a stored value, whatever is made of
  that text; there is one such text at most.
* `bodyText_object` — in an object of the grammar it is the text under the name of the body.
* `bodyText_of_read` — what is read as an entry has the base64 of its body there.
* `decode_body_text` — so that a text in any other form is refused, and a body has one text.
-/

namespace HttpCache
namespace Entry

open Json (Spelling Tree Spaced separated)

/-! ## Where the text stands -/

/-- Among the members from `s` on, the first one with the given name has this text as its value.
Nothing is said of what follows it. -/
inductive TextUnder (name text : String) : Bool → Bytes → Prop where
  | here {first : Bool} {s t u v : Bytes} (hkey : Json.nextKey first s = .ok (some name, t))
      (hcolon : Json.readColon t = .ok u) (htext : Json.readTextValue u = .ok (text, v)) :
      TextUnder name text first s
  | further {first : Bool} {s t u v : Bytes} {other : String}
      (hkey : Json.nextKey first s = .ok (some other, t)) (hne : other ≠ name)
      (hcolon : Json.readColon t = .ok u) (hskip : Json.skipValue u = .ok v)
      (hrest : TextUnder name text false v) : TextUnder name text first s

/-- The text that stands for the body: under its name in an object, or second in a list. -/
inductive BodyText (data : Bytes) (text : String) : Prop where
  | object {s : Bytes} (hs : Json.skipBlanks data = Ascii.leftBrace :: s)
      (h : TextUnder Member.body.name text true s)
  | list {s t u v w : Bytes} (hs : Json.skipBlanks data = Ascii.leftBracket :: s)
      (hfirst : Json.nextItem true s = .ok (true, t)) (hskip : Json.skipValue t = .ok u)
      (hnext : Json.nextItem false u = .ok (true, v))
      (htext : Json.readTextValue v = .ok (text, w))

theorem TextUnder.unique {name text text' : String} {first : Bool} {s : Bytes}
    (h : TextUnder name text first s) (h' : TextUnder name text' first s) : text = text' := by
  induction h with
  | here hkey hcolon htext =>
    cases h' with
    | here hkey' hcolon' htext' =>
      rw [hkey] at hkey'; cases hkey'
      rw [hcolon] at hcolon'; cases hcolon'
      rw [htext] at htext'; cases htext'
      rfl
    | further hkey' hne' => rw [hkey] at hkey'; cases hkey'; exact absurd rfl hne'
  | further hkey hne hcolon hskip _ ih =>
    cases h' with
    | here hkey' => rw [hkey] at hkey'; cases hkey'; exact absurd rfl hne
    | further hkey' _ hcolon' hskip' hrest' =>
      rw [hkey] at hkey'; cases hkey'
      rw [hcolon] at hcolon'; cases hcolon'
      rw [hskip] at hskip'; cases hskip'
      exact ih hrest'

theorem BodyText.unique {data : Bytes} {text text' : String} (h : BodyText data text)
    (h' : BodyText data text') : text = text' := by
  cases h with
  | object hs hunder =>
    cases h' with
    | object hs' hunder' => rw [hs] at hs'; cases hs'; exact hunder.unique hunder'
    | list hs' => rw [hs] at hs'; cases hs'
  | list hs hfirst hskip hnext htext =>
    cases h' with
    | object hs' => rw [hs] at hs'; cases hs'
    | list hs' hfirst' hskip' hnext' htext' =>
      rw [hs] at hs'; cases hs'
      rw [hfirst] at hfirst'; cases hfirst'
      rw [hskip] at hskip'; cases hskip'
      rw [hnext] at hnext'; cases hnext'
      rw [htext] at htext'; cases htext'
      rfl

/-! ## Objects of the grammar -/

/-- Members in front that have other names are passed over. -/
theorem textUnder_spaced {before after : List (Spelling × Tree)} {key body : Spelling}
    {name text : String}
    (hbefore : ∀ member ∈ before, ∃ other, member.1.text? = some other ∧ other ≠ name)
    (hkey : key.text? = some name) (hbody : body.text? = some text) {first : Bool}
    {more : List Bytes} {s : Bytes}
    (hs : Spaced (separated first (Tree.memberTokens (before ++ (key, .text body) :: after)) ++
      [Ascii.rightBrace] :: more) s) :
    TextUnder name text first s := by
  induction before generalizing first s with
  | nil =>
    rw [List.nil_append, Tree.memberTokens, separated, List.append_assoc, List.append_assoc] at hs
    obtain ⟨t, ht, hk⟩ := Json.nextKey_name first hkey hs
    obtain ⟨u, hu, hcolon⟩ := Json.readColon_spaced ht
    obtain ⟨v, -, hread⟩ := Json.readTextValue_spaced hbody hu
    exact .here hk hcolon hread
  | cons member before ih =>
    obtain ⟨otherKey, value⟩ := member
    obtain ⟨other, hother, hne⟩ := hbefore (otherKey, value) List.mem_cons_self
    rw [List.cons_append, Tree.memberTokens, separated, List.append_assoc, List.append_assoc] at hs
    obtain ⟨t, ht, hk⟩ := Json.nextKey_name first hother hs
    obtain ⟨u, hu, hcolon⟩ := Json.readColon_spaced ht
    obtain ⟨v, hpasses, hv⟩ :=
      Json.passed_tokens value _ _ (Json.delimited_separated .object _ _) hu
    exact .further hk hne hcolon hpasses.skipValue
      (ih (fun m hm => hbefore m (List.mem_cons_of_mem _ hm)) hv)

theorem bodyText_object {before after : List (Spelling × Tree)} {key body : Spelling}
    {text : String}
    (hbefore : ∀ member ∈ before,
      ∃ other, member.1.text? = some other ∧ other ≠ Member.body.name)
    (hkey : key.text? = some Member.body.name) (hbody : body.text? = some text) {data : Bytes}
    (hs : Spaced (Tree.object (before ++ (key, .text body) :: after)).tokens data) :
    BodyText data text := by
  rw [Tree.tokens, Json.bracketed, Json.intercalate_eq_separated] at hs
  obtain ⟨s, h, hskip⟩ := hs.skipBlanks_eq rfl
  exact .object hskip (textUnder_spaced hbefore hkey hbody h)

/-! ## What was read -/

theorem name_of_ofName? {name : String} {m : Member} (h : Member.ofName? name = some m) :
    m.name = name := by
  simpa using List.find?_some h

theorem ofName?_of_name {name : String} {m : Member} (h : name = m.name) :
    Member.ofName? name = some m := h ▸ m.ofName?_name

/-- A value other than the body leaves the body of the draft as it is; the body is written as the
base64 of what it becomes. -/
theorem body_of_readValue {after : Bytes → Bytes} {m : Member} {d d' : Draft} {s t : Bytes}
    (h : readValue after m d s = .ok (d', t)) :
    (m ≠ .body ∧ d'.body = d.body) ∨
      (m = .body ∧ ∃ body text, d'.body = some body ∧ Json.readTextValue s = .ok (text, t) ∧
        Text.utf8 text = Base64.encode body) := by
  cases m with
  | body =>
    simp only [readValue] at h
    split at h
    · cases h
    · rename_i hr
      cases h
      obtain ⟨text, hread, hdecode⟩ := readBody_eq_ok hr
      exact .inr ⟨rfl, _, text, rfl, hread, (Base64.encode_of_decode hdecode).symm⟩
  | _ =>
    simp only [readValue] at h
    split at h
    · cases h
    · cases h
      exact .inl ⟨by decide, rfl⟩

theorem body_of_readMember {name : String} {d d' : Draft} {s t : Bytes}
    (h : readMember name d s = .ok (d', t)) :
    ∃ u, Json.readColon s = .ok u ∧ Json.skipValue u = .ok t ∧
      ((name ≠ Member.body.name ∧ d'.body = d.body) ∨
        (name = Member.body.name ∧ d.body = none ∧ ∃ body text, d'.body = some body ∧
          Json.readTextValue u = .ok (text, t) ∧ Text.utf8 text = Base64.encode body)) := by
  obtain ⟨u, hcolon, ⟨m, hm, hfree, hvalue⟩ | ⟨hm, hskip, rfl⟩⟩ := readMember_eq_ok h
  · refine ⟨u, hcolon, (passesTo_of_readValue hvalue).skipValue, ?_⟩
    rcases body_of_readValue hvalue with ⟨hne, hbody⟩ | ⟨rfl, hbody⟩
    · refine .inl ⟨fun heq => hne ?_, hbody⟩
      exact Option.some.inj (hm.symm.trans (ofName?_of_name heq))
    · exact .inr ⟨(name_of_ofName? hm).symm, by simpa [Draft.has] using hfree, hbody⟩
  · refine ⟨u, hcolon, hskip, .inl ⟨fun heq => ?_, rfl⟩⟩
    rw [ofName?_of_name heq] at hm
    cases hm

/-- By induction on the members that are left: the body of the draft was there before, or its text
stands among them. -/
theorem textUnder_of_readMembers {first : Bool} {d d' : Draft} {s t body : Bytes}
    (h : readMembers first d s = .ok (d', t)) (hbody : d'.body = some body) :
    d.body = some body ∨ (d.body = none ∧ ∃ text, TextUnder Member.body.name text first s ∧
      Text.utf8 text = Base64.encode body) := by
  fun_induction readMembers first d s with
  | case2 first d s u hk =>
    cases h
    exact .inl hbody
  | case4 first d s name rest hk d₁ rest' hm ih =>
    obtain ⟨u, hcolon, hskip, hmember⟩ := body_of_readMember hm
    rcases hmember with ⟨hne, hkept⟩ | ⟨rfl, hnone, own, text, hown, hread, htext⟩
    · rw [← hkept]
      refine (ih h).imp_right ?_
      rintro ⟨hnone, text, hunder, htext⟩
      exact ⟨hnone, text, .further hk hne hcolon hskip hunder, htext⟩
    · rw [hown] at ih
      rcases ih h with heq | ⟨hnone', -⟩
      · cases heq
        exact .inr ⟨hnone, text, .here hk hcolon hread, htext⟩
      · cases hnone'
  | _ => cases h

/-- Items other than the body leave the body of the draft as it is. -/
theorem body_of_readItems {n : Nat} {d d' : Draft} {members : List Member} {s t : Bytes}
    (h : readItems n d members s = .ok (d', t)) (hbody : .body ∉ members) : d'.body = d.body := by
  induction members generalizing n d s with
  | nil => cases h; rfl
  | cons m members ih =>
    obtain ⟨u, d₁, v, -, hv, hrest⟩ := readItems_cons_eq_ok h
    rcases body_of_readValue hv with ⟨-, hkept⟩ | ⟨rfl, -⟩
    · exact (ih hrest fun hmem => hbody (List.mem_cons_of_mem _ hmem)).trans hkept
    · exact absurd List.mem_cons_self hbody

theorem bodyText_of_readList {e : Entry} {data s t : Bytes}
    (hs : Json.skipBlanks data = Ascii.leftBracket :: s) (h : readList s = .ok (e, t)) :
    ∃ text, BodyText data text ∧ Text.utf8 text = Base64.encode e.body := by
  obtain ⟨d, _, hitems, -, hcomplete⟩ := readList_eq_ok h
  obtain ⟨u, _, v, hfirst, hheader, hitems⟩ := readItems_cons_eq_ok hitems
  obtain ⟨w, _, _, hnext, hbody, hitems⟩ := readItems_cons_eq_ok hitems
  rcases body_of_readValue hbody with ⟨hne, -⟩ | ⟨-, body, text, hown, hread, htext⟩
  · exact absurd rfl hne
  · have hkept := body_of_readItems hitems (by decide)
    rw [complete_eq_ok hcomplete, hown] at hkept
    cases hkept
    exact ⟨text, .list hs hfirst (passesTo_of_readValue hheader).skipValue hnext hread, htext⟩

theorem bodyText_of_readObject {e : Entry} {data s t : Bytes}
    (hs : Json.skipBlanks data = Ascii.leftBrace :: s) (h : readObject s = .ok (e, t)) :
    ∃ text, BodyText data text ∧ Text.utf8 text = Base64.encode e.body := by
  obtain ⟨d, hmembers, hcomplete⟩ := readObject_eq_ok h
  have hbody : d.body = some e.body := congrArg Draft.body (complete_eq_ok hcomplete)
  rcases textUnder_of_readMembers hmembers hbody with hempty | ⟨-, text, hunder, htext⟩
  · cases hempty
  · exact ⟨text, .object hs hunder, htext⟩

/-- What is read as an entry has the base64 of the entry's body where the text of a body stands. -/
theorem bodyText_of_read {e : Entry} {data t : Bytes} (h : read data = .ok (e, t)) :
    ∃ text, BodyText data text ∧ Text.utf8 text = Base64.encode e.body := by
  rcases read_eq_ok h with ⟨s, hs, hobject⟩ | ⟨s, hs, hlist⟩
  · exact bodyText_of_readObject hs hobject
  · exact bodyText_of_readList hs hlist

theorem bodyText_of_decode {e : Entry} {data : Bytes} (h : decode data = .ok e) :
    ∃ text, BodyText data text ∧ Text.utf8 text = Base64.encode e.body := by
  obtain ⟨⟨t, hread⟩, -⟩ := decode_eq_ok h
  exact bodyText_of_read hread

/-- A text that is no base64 of anything keeps the whole value from being read, so that not even
its status code is looked at. -/
theorem malformed_of_bodyText {data : Bytes} {text : String} (h : BodyText data text)
    (htext : ∀ body, Base64.encode body ≠ Text.utf8 text) :
    ∃ cause, decode data = .error (.malformed cause) := by
  refine malformed_of_read fun e t hread => ?_
  obtain ⟨own, hown, hencode⟩ := bodyText_of_read hread
  rw [hown.unique h] at hencode
  exact htext e.body hencode.symm

/-- **A body is stored in one way only.** Where the text of a body stands in a value that is read
as an entry, there stands the base64 of the entry's body, and this text alone. A text of any other
form there is refused: one with other octets than symbols and padding, with too little padding,
with too much of it or with some in between, or with an unused bit set. So two values whose texts
differ are never read as entries with the same body. -/
theorem decode_body_text :
    (∀ data e, decode data = .ok e →
      ∀ text, BodyText data text ↔ Text.utf8 text = Base64.encode e.body) ∧
    (∀ data text, BodyText data text → ¬Base64.Canonical (Text.utf8 text) →
      ∃ cause, decode data = .error (.malformed cause)) ∧
    (∀ s, Base64.Canonical s ↔ ∃ body, Base64.encode body = s) ∧
    ∀ data data' e e' text text', decode data = .ok e → decode data' = .ok e' →
      BodyText data text → BodyText data' text' → e.body = e'.body → text = text' := by
  refine ⟨?one, ?refused, fun _ => Base64.canonical_iff, ?same⟩
  case one =>
    intro data e h text
    obtain ⟨own, hown, hencode⟩ := bodyText_of_decode h
    constructor
    · intro htext
      rw [htext.unique hown, hencode]
    · intro htext
      rw [Text.utf8_injective (htext.trans hencode.symm)]
      exact hown
  case refused =>
    intro data text htext hcanonical
    exact malformed_of_bodyText htext fun body heq =>
      hcanonical (Base64.canonical_iff.mpr ⟨body, heq⟩)
  case same =>
    intro data data' e e' text text' h h' htext htext' hbody
    obtain ⟨own, hown, hencode⟩ := bodyText_of_decode h
    obtain ⟨own', hown', hencode'⟩ := bodyText_of_decode h'
    rw [htext.unique hown, htext'.unique hown']
    exact Text.utf8_injective (by rw [hencode, hencode', hbody])

/-- The members of the small entry, with a body whose last symbol has an unused bit set: it stands
for the octet of `QQ==`. -/
def unusedBitMembers : List (Spelling × Tree) :=
  [(.ofString "header", smallEntry.tree .header), (.ofString "body", .text (.ofString "QR==")),
    (.ofString "status_code", smallEntry.tree .statusCode),
    (.ofString "expiration", smallEntry.tree .expiration)]

def unusedBitText : Bytes :=
  Text.utf8 ("\x7b\"header\":[],\"body\":\"QR==\",\"status_code\":200,\"expiration\":5\x7d")

theorem unusedBitText_eq : unusedBitText = (Tree.object unusedBitMembers).tokens.flatten := by
  decide +kernel

/-- A body with an unused bit set is refused. -/
theorem refused_of_unused_bit :
    BodyText unusedBitText "QR==" ∧ ¬Base64.Canonical (Text.utf8 "QR==") ∧
      ∃ cause, decode unusedBitText = .error (.malformed cause) := by
  have hspaced : Spaced (Tree.object unusedBitMembers).tokens unusedBitText := by
    rw [unusedBitText_eq]
    exact Json.spaced_flatten _
  have hheader : ∀ member ∈ [(Spelling.ofString "header", smallEntry.tree .header)],
      ∃ other, member.1.text? = some other ∧ other ≠ Member.body.name := by
    rintro _ hmem
    obtain rfl := List.mem_singleton.mp hmem
    exact ⟨"header", Json.text?_ofString _, by decide⟩
  have hbody : BodyText unusedBitText "QR==" :=
    bodyText_object hheader (Json.text?_ofString _) (Json.text?_ofString _) hspaced
  have hcanonical : ¬Base64.Canonical (Text.utf8 "QR==") := by
    rw [Base64.canonical_iff]
    rintro ⟨body, hbody⟩
    have hdecode := Base64.decode_encode body
    rw [hbody] at hdecode
    cases hdecode
  exact ⟨hbody, hcanonical, decode_body_text.2.1 _ _ hbody hcanonical⟩

end Entry
end HttpCache
