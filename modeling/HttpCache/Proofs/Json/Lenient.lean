import Mathlib.Data.List.Forall2
import HttpCache.Proofs.Json.Integer
import HttpCache.Proofs.Json.Spaced

/-!
# HttpCache.Proofs.Json.Lenient

The readers take a value in every spelling and with any blanks.

* `readTextValue_spaced`, `readIntegerIn_spaced` — a text in every spelling; an integer.
* `nextItem_lead`, `nextKey_lead` — the next item of a list; the name of the next member of an
  object.
* `readPairs_spaced` — a list of pairs of texts.

Each leaves the text of the tokens that follow, so that the lemmas compose.
-/

namespace HttpCache
namespace Json

open Ascii

section Tokens

variable {more : List Bytes} {s : Bytes}

theorem readTextValue_spaced {ps : Spelling} {text : String} (h : ps.text? = some text)
    (hs : Spaced (ps.token :: more) s) : ∃ t, Spaced more t ∧ readTextValue s = .ok (text, t) := by
  obtain ⟨t, ht, hquote⟩ := hs.skipBlanks_text
  refine ⟨t, ht, ?_⟩
  simp only [readTextValue, hquote, if_true, readText_octets h]

theorem integer_eq_cons (i : Int) : ∃ b rest, integer i = b :: rest ∧ isBlank b = false := by
  by_cases hi : i < 0
  · exact ⟨minus, _, integer_neg hi, rfl⟩
  · obtain ⟨d, rest, hcons, hdigit⟩ := natural_eq_cons i.natAbs
    exact ⟨d, rest, (integer_nonneg (by omega)).trans hcons, isBlank_of_isDigit hdigit⟩

theorem readIntegerIn_skipBlanks (low high : Int) (expected : String) (s : Bytes) :
    readIntegerIn low high expected (skipBlanks s) = readIntegerIn low high expected s := by
  rw [readIntegerIn, readIntegerIn, skipBlanks_skipBlanks]

theorem readIntegerIn_spaced (low high : Int) {i : Int} (expected : String) (hlow : low ≤ i)
    (hhigh : i ≤ high) (hmin : -0x8000000000000000 ≤ i) (hmax : i ≤ 0xFFFFFFFFFFFFFFFF)
    (hd : Delimited more) (hs : Spaced (integer i :: more) s) :
    ∃ t, Spaced more t ∧ readIntegerIn low high expected s = .ok (i, t) := by
  obtain ⟨b, rest, hcons, hb⟩ := integer_eq_cons i
  rw [hcons] at hs
  obtain ⟨t, ht, hskip⟩ := hs.skipBlanks_eq hb
  refine ⟨t, ht, ?_⟩
  rw [← readIntegerIn_skipBlanks, hskip, ← List.cons_append, ← hcons]
  exact readIntegerIn_integer expected (ht.endsNumber hd) hlow hhigh hmin hmax

/-! ## Lists -/

theorem nextItem_lead (first : Bool) {b : UInt8} {token : Bytes} (hb : isBlank b = false)
    (hr : b ≠ rightBracket) (hs : Spaced (lead first ++ (b :: token) :: more) s) :
    ∃ t, Spaced ((b :: token) :: more) t ∧ nextItem first s = .ok (true, t) := by
  cases first with
  | true =>
    obtain ⟨t, ht, hskip⟩ := Spaced.skipBlanks_eq hs hb
    refine ⟨skipBlanks s, Spaced.of_skipBlanks hs hb, ?_⟩
    simp only [nextItem, hskip, hr, if_false, if_true]
  | false =>
    obtain ⟨u, hu, hcomma⟩ := Spaced.skipBlanks_eq hs rfl
    obtain ⟨t, ht, hskip⟩ := hu.skipBlanks_eq hb
    refine ⟨skipBlanks u, hu.of_skipBlanks hb, ?_⟩
    have hne : comma ≠ rightBracket := by decide
    simp only [nextItem, hcomma, List.nil_append, hne, if_false, if_true, hskip, hr,
      Bool.false_eq_true]

theorem nextItem_close (first : Bool) (hs : Spaced ([rightBracket] :: more) s) :
    ∃ t, Spaced more t ∧ nextItem first s = .ok (false, rightBracket :: t) := by
  obtain ⟨t, ht, hskip⟩ := hs.skipBlanks_eq rfl
  refine ⟨t, ht, ?_⟩
  simp only [nextItem, hskip, if_true, List.nil_append]

theorem closeList_close (hs : Spaced ([rightBracket] :: more) s) :
    ∃ t, Spaced more t ∧ closeList s = .ok t := by
  obtain ⟨t, ht, hskip⟩ := hs.skipBlanks_eq rfl
  refine ⟨t, ht, ?_⟩
  simp only [closeList, hskip, if_true, List.nil_append]

theorem closeList_comma (hs : Spaced ([comma] :: more) s) : ∃ e, closeList s = .error e := by
  obtain ⟨t, ht, hskip⟩ := hs.skipBlanks_eq rfl
  have hne : comma ≠ rightBracket := by decide
  simp only [closeList, hskip, hne, if_false, if_true]
  split
  · exact ⟨_, rfl⟩
  · exact ⟨_, rfl⟩

/-! ## Objects -/

theorem nextKey_close (first : Bool) (hs : Spaced ([rightBrace] :: more) s) :
    ∃ t, Spaced more t ∧ nextKey first s = .ok (none, t) := by
  obtain ⟨t, ht, hskip⟩ := hs.skipBlanks_eq rfl
  refine ⟨t, ht, ?_⟩
  simp only [nextKey, hskip, if_true, List.nil_append]

/-- The name of a member is read as a text. -/
theorem nextKey_lead (first : Bool) {name : Spelling}
    (hs : Spaced (lead first ++ name.token :: more) s) :
    ∃ t, Spaced more t ∧
      nextKey first s =
        (readText (name.octets ++ doubleQuote :: t)).map fun r => (some r.1, r.2) := by
  have hquote : doubleQuote ≠ rightBrace := by decide
  have hcomma : comma ≠ rightBrace := by decide
  cases first with
  | true =>
    obtain ⟨t, ht, hskip⟩ := Spaced.skipBlanks_text hs
    refine ⟨t, ht, ?_⟩
    simp only [nextKey, hskip, hquote, if_false, if_true]
    cases readText (name.octets ++ doubleQuote :: t) <;> rfl
  | false =>
    obtain ⟨u, hu, hlead⟩ := Spaced.skipBlanks_eq hs rfl
    obtain ⟨t, ht, hskip⟩ := hu.skipBlanks_text
    refine ⟨t, ht, ?_⟩
    simp only [nextKey, hlead, List.nil_append, hcomma, if_false, if_true, hskip,
      Bool.false_eq_true]
    cases readText (name.octets ++ doubleQuote :: t) <;> rfl

theorem nextKey_name (first : Bool) {name : Spelling} {text : String} (h : name.text? = some text)
    (hs : Spaced (lead first ++ name.token :: more) s) :
    ∃ t, Spaced more t ∧ nextKey first s = .ok (some text, t) := by
  obtain ⟨t, ht, hkey⟩ := nextKey_lead first hs
  rw [readText_octets h] at hkey
  exact ⟨t, ht, hkey⟩

theorem nextKey_of_text?_eq_none (first : Bool) {name : Spelling} (h : name.text? = none)
    (hs : Spaced (lead first ++ name.token :: more) s) : ∃ e, nextKey first s = .error e := by
  obtain ⟨t, ht, hkey⟩ := nextKey_lead first hs
  obtain ⟨e, he⟩ := readText_of_text?_eq_none h t
  rw [he] at hkey
  exact ⟨e, hkey⟩

theorem readColon_spaced (hs : Spaced ([colon] :: more) s) :
    ∃ t, Spaced more t ∧ readColon s = .ok t := by
  obtain ⟨t, ht, hskip⟩ := hs.skipBlanks_eq rfl
  refine ⟨t, ht, ?_⟩
  simp only [readColon, hskip, if_true, List.nil_append]

end Tokens

/-! ## Lists of pairs -/

/-- The tree is a list of two texts. -/
def Tree.SpellsPair (tree : Tree) (p : String × String) : Prop :=
  ∃ a b : Spelling, tree = .list [.text a, .text b] ∧ a.text? = some p.1 ∧ b.text? = some p.2

theorem tokens_list (items : List Tree) :
    (Tree.list items).tokens =
      [leftBracket] :: (separated true (Tree.itemTokens items) ++ [[rightBracket]]) := by
  rw [Tree.tokens, bracketed, intercalate_eq_separated]
  rfl

theorem readPair_spaced {tree : Tree} {p : String × String} (h : tree.SpellsPair p)
    {more : List Bytes} {s : Bytes} (hs : Spaced (tree.tokens ++ more) s) :
    ∃ t, Spaced more t ∧ readPair s = .ok (p, t) := by
  obtain ⟨a, b, rfl, ha, hb⟩ := h
  rw [tokens_list] at hs
  obtain ⟨s₁, h₁, hopen⟩ := hs.skipBlanks_eq rfl
  obtain ⟨s₂, h₂, hfirst⟩ := nextItem_lead true rfl (by decide) h₁
  obtain ⟨s₃, h₃, hname⟩ := readTextValue_spaced ha h₂
  obtain ⟨s₄, h₄, hsecond⟩ := nextItem_lead false rfl (by decide) h₃
  obtain ⟨s₅, h₅, hvalue⟩ := readTextValue_spaced hb h₄
  obtain ⟨t, ht, hclose⟩ := closeList_close h₅
  refine ⟨t, ht, ?_⟩
  simp only [readPair, hopen, if_true, List.nil_append, readPairItems, hfirst, hname, hsecond,
    hvalue, hclose]

theorem Tree.SpellsPair.tokens_eq_cons {tree : Tree} {p : String × String} (h : tree.SpellsPair p) :
    ∃ rest, tree.tokens = [leftBracket] :: rest := by
  obtain ⟨a, b, rfl, -, -⟩ := h
  exact ⟨_, tokens_list _⟩

theorem readPairsFrom_stop {first : Bool} {s t : Bytes} (h : nextItem first s = .ok (false, t)) :
    readPairsFrom first s = .ok ([], t.tail) := by
  rw [readPairsFrom]
  split
  · rename_i hn; rw [h] at hn; cases hn
  · rename_i hn; rw [h] at hn; cases hn; rfl
  · rename_i hn; rw [h] at hn; cases hn

theorem readPairsFrom_step {first : Bool} {s t u v : Bytes} {p : String × String}
    {ps : List (String × String)} (hn : nextItem first s = .ok (true, t))
    (hp : readPair t = .ok (p, u)) (hr : readPairsFrom false u = .ok (ps, v)) :
    readPairsFrom first s = .ok (p :: ps, v) := by
  rw [readPairsFrom]
  split
  · rename_i hn'; rw [hn] at hn'; cases hn'
  · rename_i hn'; rw [hn] at hn'; cases hn'
  · rename_i hn'
    rw [hn] at hn'; cases hn'
    split
    · rename_i hp'; rw [hp] at hp'; cases hp'
    · rename_i hp'
      rw [hp] at hp'; cases hp'
      rw [hr]

/-- The pairs up to the closing bracket, by induction on them. -/
theorem readPairsFrom_spaced {items : List Tree} {ps : List (String × String)}
    (h : List.Forall₂ Tree.SpellsPair items ps) {first : Bool} {more : List Bytes} {s : Bytes}
    (hs : Spaced (separated first (Tree.itemTokens items) ++ [rightBracket] :: more) s) :
    ∃ t, Spaced more t ∧ readPairsFrom first s = .ok (ps, t) := by
  induction h generalizing first s with
  | nil =>
    obtain ⟨t, ht, hn⟩ := nextItem_close first hs
    exact ⟨t, ht, readPairsFrom_stop hn⟩
  | @cons item p items ps hitem _ ih =>
    rw [Tree.itemTokens, separated, List.append_assoc, List.append_assoc] at hs
    obtain ⟨rest, hcons⟩ := hitem.tokens_eq_cons
    obtain ⟨s₁, h₁, hn⟩ : ∃ t, Spaced (item.tokens ++ (separated false (Tree.itemTokens items) ++
        [rightBracket] :: more)) t ∧ nextItem first s = .ok (true, t) := by
      rw [hcons] at hs ⊢
      exact nextItem_lead first rfl (by decide) hs
    obtain ⟨s₂, h₂, hp⟩ := readPair_spaced hitem h₁
    obtain ⟨t, ht, hrest⟩ := ih h₂
    exact ⟨t, ht, readPairsFrom_step hn hp hrest⟩

theorem readPairs_spaced {items : List Tree} {ps : List (String × String)}
    (h : List.Forall₂ Tree.SpellsPair items ps) {more : List Bytes} {s : Bytes}
    (hs : Spaced ((Tree.list items).tokens ++ more) s) :
    ∃ t, Spaced more t ∧ readPairs s = .ok (ps, t) := by
  rw [tokens_list, List.cons_append, List.append_assoc] at hs
  obtain ⟨s₁, h₁, hopen⟩ := hs.skipBlanks_eq rfl
  obtain ⟨t, ht, hpairs⟩ := readPairsFrom_spaced h h₁
  refine ⟨t, ht, ?_⟩
  simp only [readPairs, hopen, if_true, List.nil_append, hpairs]

end Json
end HttpCache
