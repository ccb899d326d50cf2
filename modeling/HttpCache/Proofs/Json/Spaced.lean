import HttpCache.Proofs.Json.Passing
import HttpCache.Proofs.Json.Spelling

/-!
# HttpCache.Proofs.Json.Spaced

Well-formed JSON is passed over, whatever its shape, depth and blanks.

* `Spaced.skipBlanks_eq` — the next token of a spaced text, behind its blanks.
* `Passed`, `Entered` — tokens that make one value; tokens that make one item or member.
* `skipNext_separated` — the items between two brackets.
* `passed_tokens` — the tokens of a tree make one value.

What follows a value is the end, a comma or a closing bracket (`Delimited`), so that no number
goes on.
-/

namespace HttpCache
namespace Json

open Ascii

/-! ## Tokens behind blanks -/

theorem skipBlanks_blanks {blanks : Bytes} (h : ∀ b ∈ blanks, isBlank b = true) (s : Bytes) :
    skipBlanks (blanks ++ s) = skipBlanks s :=
  List.dropWhile_append_of_pos h

section Tokens

variable {b : UInt8} {token s : Bytes} {tokens : List Bytes}

theorem Spaced.skipBlanks_eq (h : Spaced ((b :: token) :: tokens) s) (hb : isBlank b = false) :
    ∃ t, Spaced tokens t ∧ skipBlanks s = b :: (token ++ t) := by
  cases h with
  | cons hblanks htext =>
    refine ⟨_, htext, ?_⟩
    rw [skipBlanks_blanks hblanks, List.cons_append, skipBlanks_cons hb]

theorem Spaced.skipBlanks_end (h : Spaced [] s) : skipBlanks s = [] := by
  cases h with
  | nil hblanks =>
    have hend := skipBlanks_blanks hblanks []
    rwa [List.append_nil] at hend

theorem Spaced.isBlank_of_mem (h : Spaced [] s) (hb : b ∈ s) : isBlank b = true := by
  cases h with
  | nil hblanks => exact hblanks b hb

/-- Blanks in front of a token may be left out. -/
theorem Spaced.of_skipBlanks (h : Spaced ((b :: token) :: tokens) s) (hb : isBlank b = false) :
    Spaced ((b :: token) :: tokens) (skipBlanks s) := by
  obtain ⟨t, ht, hs⟩ := h.skipBlanks_eq hb
  have hcons : Spaced ((b :: token) :: tokens) ([] ++ (b :: token ++ t)) := .cons nofun ht
  rw [hs]
  exact hcons

theorem Spaced.skipBlanks_text {ps : Spelling} (h : Spaced (ps.token :: tokens) s) :
    ∃ t, Spaced tokens t ∧ skipBlanks s = doubleQuote :: (ps.octets ++ doubleQuote :: t) := by
  obtain ⟨t, ht, hs⟩ := h.skipBlanks_eq rfl
  exact ⟨t, ht, hs.trans (token_append ps t)⟩

end Tokens

/-- The tokens end, or go on with a comma or a closing bracket. -/
def Delimited (tokens : List Bytes) : Prop :=
  ∀ token ∈ tokens.head?, token = [comma] ∨ token = [rightBracket] ∨ token = [rightBrace]

theorem delimited_close (frame : Frame) (more : List Bytes) : Delimited ([frame.close] :: more) := by
  intro token htoken
  cases htoken
  cases frame with
  | list => exact .inr (.inl rfl)
  | object => exact .inr (.inr rfl)

theorem endsNumber_of_isBlank {b : UInt8} (h : isBlank b = true) :
    isDigit b = false ∧ b ≠ dot ∧ b ≠ 101 ∧ b ≠ 69 := by
  simp only [isBlank, Bool.or_eq_true, beq_iff_eq] at h
  rcases h with ((rfl | rfl) | rfl) | rfl <;> decide

theorem Spaced.endsNumber {tokens : List Bytes} {s : Bytes} (h : Spaced tokens s)
    (hd : Delimited tokens) : EndsNumber s := by
  intro b hb
  cases h with
  | nil hblanks => exact endsNumber_of_isBlank (hblanks b (List.mem_of_mem_head? hb))
  | @cons blanks token text tokens hblanks htext =>
    cases blanks with
    | nil =>
      rcases hd token rfl with rfl | rfl | rfl <;> cases hb <;> decide
    | cons c blanks =>
      cases hb
      exact endsNumber_of_isBlank (hblanks b List.mem_cons_self)

/-! ## Values -/

/-- The tokens make one value. -/
def Passed (tokens : List Bytes) : Prop :=
  ∀ (more : List Bytes) (s : Bytes), Delimited more → Spaced (tokens ++ more) s →
    ∃ t, PassesTo s t ∧ Spaced more t

/-- The tokens make one item of a list, or one member of an object. -/
def Entered (frame : Frame) (tokens : List Bytes) : Prop :=
  ∀ (more : List Bytes) (s : Bytes), Delimited more → Spaced (tokens ++ more) s →
    ∃ v t, skipToValue frame s = .ok v ∧ PassesTo v t ∧ Spaced more t

theorem passed_scalar {b : UInt8} {token : Bytes} (hb : isBlank b = false)
    (hlist : b ≠ leftBracket) (hobject : b ≠ leftBrace)
    (h : ∀ t, EndsNumber t → skipScalar b (token ++ t) = .ok t) : Passed [b :: token] := by
  intro more s hd hs
  obtain ⟨t, ht, hskip⟩ := hs.skipBlanks_eq hb
  exact ⟨t, passesTo_scalar hskip hlist hobject (h t (ht.endsNumber hd)), ht⟩

theorem passed_text (ps : Spelling) : Passed [ps.token] := by
  intro more s hd hs
  obtain ⟨t, ht, hquote⟩ := hs.skipBlanks_text
  refine ⟨t, passesTo_scalar hquote (by decide) (by decide) ?_, ht⟩
  rw [skipScalar_quote, skipString_octets]

theorem passed_number (n : Numeral) : Passed [n.octets] := by
  cases hn : n.negative with
  | true =>
    rw [Numeral.octets, hn, if_pos rfl]
    exact passed_scalar rfl (by decide) (by decide) fun t ht => skipNumber_unsigned n ht
  | false =>
    obtain ⟨d, rest, hcons, hdigit⟩ := unsigned_eq_cons n
    rw [Numeral.octets, hn, if_neg Bool.false_ne_true, hcons]
    refine passed_scalar (isBlank_of_isDigit hdigit) (ne_of_isDigit hdigit rfl)
      (ne_of_isDigit hdigit rfl) fun t ht => ?_
    rw [skipScalar_digit hdigit, ← List.cons_append, ← hcons]
    exact skipNumber_unsigned n ht

theorem Passed.entered {tokens : List Bytes} (h : Passed tokens) : Entered .list tokens := by
  intro more s hd hs
  obtain ⟨t, hpasses, ht⟩ := h more s hd hs
  exact ⟨s, t, rfl, hpasses, ht⟩

theorem Passed.entered_member (name : Spelling) {tokens : List Bytes} (h : Passed tokens) :
    Entered .object (name.token :: [colon] :: tokens) := by
  intro more s hd hs
  obtain ⟨u, hu, hquote⟩ := hs.skipBlanks_text
  obtain ⟨v, hv, hcolon⟩ := hu.skipBlanks_eq rfl
  obtain ⟨t, hpasses, ht⟩ := h more _ hd hv
  have hkey : skipKey s = .ok v := by
    simp only [skipKey, hquote, if_true, skipString_octets, hcolon, List.nil_append]
  exact ⟨v, t, hkey, hpasses, ht⟩

/-! ## Items between brackets -/

/-- What stands in front of an item. -/
def lead (first : Bool) : List Bytes := if first then [] else [[comma]]

/-- Items with commas between them, and one in front of the first item unless it comes first. -/
def separated (first : Bool) : List (List Bytes) → List Bytes
  | [] => []
  | item :: items => lead first ++ (item ++ separated false items)

theorem intercalate_eq_separated (items : List (List Bytes)) :
    [[comma]].intercalate items = separated true items := by
  induction items with
  | nil => rfl
  | cons item items ih =>
    cases items with
    | nil => simp [separated, lead]
    | cons next items =>
      rw [List.intercalate_cons_cons, ih]
      simp [separated, lead]

/-- An item does not begin with the end of the list. -/
theorem ne_close_of_entered {frame : Frame} {s v t : Bytes} (hv : skipToValue frame s = .ok v)
    (ht : PassesTo v t) : ∃ b rest, skipBlanks s = b :: rest ∧ b ≠ frame.close := by
  cases frame with
  | list =>
    cases hv
    have hvalue := ht.skipValue
    cases hs : skipBlanks s with
    | nil =>
      rw [skipValue, skipIn_nil hs] at hvalue
      cases hvalue
    | cons b rest =>
      refine ⟨b, rest, rfl, ?_⟩
      rintro rfl
      rw [skipValue, skipIn_cons hs] at hvalue
      cases hvalue
  | object =>
    cases hs : skipBlanks s with
    | nil =>
      simp only [skipToValue, skipKey, hs] at hv
      cases hv
    | cons b rest =>
      refine ⟨b, rest, rfl, ?_⟩
      rintro rfl
      simp only [skipToValue, skipKey, hs] at hv
      cases hv

theorem skipToValue_skipBlanks {frame : Frame} {s v t : Bytes} (hv : skipToValue frame s = .ok v)
    (ht : PassesTo v t) : ∃ v', skipToValue frame (skipBlanks s) = .ok v' ∧ PassesTo v' t := by
  cases frame with
  | list =>
    cases hv
    exact ⟨skipBlanks s, rfl, fun stack => (skipIn_skipBlanks stack s).trans (ht stack)⟩
  | object =>
    refine ⟨v, ?_, ht⟩
    simp only [skipToValue, skipKey, skipBlanks_skipBlanks] at hv ⊢
    exact hv

theorem delimited_separated (frame : Frame) (items : List (List Bytes)) (more : List Bytes) :
    Delimited (separated false items ++ [frame.close] :: more) := by
  cases items with
  | nil => exact delimited_close frame more
  | cons item items =>
    intro token htoken
    cases htoken
    exact .inl rfl

theorem skipNext_entered {frame : Frame} {first : Bool} {tokens more : List Bytes} {s : Bytes}
    (h : Entered frame tokens) (hd : Delimited more)
    (hs : Spaced (lead first ++ (tokens ++ more)) s) :
    ∃ t, Spaced more t ∧
      ∀ stack, skipNext first frame stack s = skipAfter (frame :: stack) t := by
  cases first with
  | true =>
    obtain ⟨v, t, hv, hpasses, ht⟩ := h more s hd hs
    obtain ⟨b, rest, hb, hne⟩ := ne_close_of_entered hv hpasses
    obtain ⟨v', hv', hpasses'⟩ := skipToValue_skipBlanks hv hpasses
    refine ⟨t, ht, fun stack => ?_⟩
    rw [skipNext_first frame stack hb hne, ← hb, hv']
    exact hpasses' _
  | false =>
    obtain ⟨u, hu, hcomma⟩ := hs.skipBlanks_eq rfl
    obtain ⟨v, t, hv, hpasses, ht⟩ := h more u hd hu
    refine ⟨t, ht, fun stack => ?_⟩
    rw [skipNext_comma frame stack hcomma, List.nil_append, hv]
    exact hpasses _

/-- The items up to the closing bracket, by induction on them. -/
theorem skipNext_separated {frame : Frame} {items : List (List Bytes)}
    (h : ∀ item ∈ items, Entered frame item) {first : Bool} {more : List Bytes} {s : Bytes}
    (hs : Spaced (separated first items ++ [frame.close] :: more) s) :
    ∃ t, Spaced more t ∧ ∀ stack, skipNext first frame stack s = skipAfter stack t := by
  induction items generalizing first s with
  | nil =>
    have hclose : isBlank frame.close = false := by cases frame <;> rfl
    obtain ⟨t, ht, hs⟩ := hs.skipBlanks_eq hclose
    exact ⟨t, ht, fun stack => skipNext_close frame first stack hs⟩
  | cons item items ih =>
    rw [separated, List.append_assoc, List.append_assoc] at hs
    obtain ⟨u, hu, hitem⟩ := skipNext_entered (h item List.mem_cons_self)
      (delimited_separated frame items more) hs
    obtain ⟨t, ht, hrest⟩ := ih (fun i hi => h i (List.mem_cons_of_mem item hi)) hu
    exact ⟨t, ht, fun stack => (hitem stack).trans (hrest stack)⟩

theorem passed_bracketed {frame : Frame} {items : List (List Bytes)}
    (h : ∀ item ∈ items, Entered frame item) : Passed (bracketed frame items) := by
  intro more s hd hs
  have hopening : isBlank frame.opening = false := by cases frame <;> rfl
  obtain ⟨u, hu, hskip⟩ := hs.skipBlanks_eq hopening
  rw [intercalate_eq_separated, List.append_eq, List.append_assoc] at hu
  obtain ⟨t, ht, hitems⟩ := skipNext_separated h hu
  exact ⟨t, passesTo_opening frame hskip hitems, ht⟩

mutual

theorem passed_tokens (tree : Tree) : Passed tree.tokens := by
  cases tree with
  | null => exact passed_scalar rfl (by decide) (by decide) fun _ _ => rfl
  | bool b =>
    cases b with
    | true => exact passed_scalar rfl (by decide) (by decide) fun _ _ => rfl
    | false => exact passed_scalar rfl (by decide) (by decide) fun _ _ => rfl
  | number n => exact passed_number n
  | text ps => exact passed_text ps
  | list items => exact passed_bracketed (entered_itemTokens items)
  | object members => exact passed_bracketed (entered_memberTokens members)

theorem entered_itemTokens (items : List Tree) :
    ∀ item ∈ Tree.itemTokens items, Entered .list item := by
  cases items with
  | nil => exact nofun
  | cons item items =>
    intro tokens h
    rcases List.mem_cons.mp h with rfl | h
    · exact (passed_tokens item).entered
    · exact entered_itemTokens items tokens h

theorem entered_memberTokens (members : List (Spelling × Tree)) :
    ∀ member ∈ Tree.memberTokens members, Entered .object member := by
  cases members with
  | nil => exact nofun
  | cons member members =>
    obtain ⟨name, value⟩ := member
    intro tokens h
    rcases List.mem_cons.mp h with rfl | h
    · exact (passed_tokens value).entered_member name
    · exact entered_memberTokens members tokens h

end

end Json
end HttpCache
