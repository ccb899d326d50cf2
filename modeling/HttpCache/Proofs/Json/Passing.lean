import HttpCache.Proofs.Json.Skip

/-!
# HttpCache.Proofs.Json.Passing

What a reader takes is what the skipper passes over, so that readers inherit the laws of the
skipper.

* `PassesTo` — from one place to another the skipper passes over one whole value.
* `passesTo_of_readTextValue`, `passesTo_of_readIntegerIn`, `passesTo_of_readPairs` — a reader
  that succeeds leaves what the skipper leaves.
* `skipNext` — the skipper in front of the next item of a list or the next member of an object.
-/

namespace HttpCache
namespace Json

open Ascii

/-- One value stands in front of `t` in `s`, whatever brackets are open around it. -/
def PassesTo (s t : Bytes) : Prop := ∀ stack, skipIn stack s = skipAfter stack t

theorem PassesTo.skipValue {s t : Bytes} (h : PassesTo s t) : skipValue s = .ok t := by
  rw [Json.skipValue, h [], skipAfter_empty]

theorem passesTo_of_skipValue {s t : Bytes} (h : Json.skipValue s = .ok t) : PassesTo s t := by
  intro stack
  have happend := skipIn_append h stack [] fun _ => rfl
  rwa [List.nil_append, List.append_nil, List.append_nil] at happend

/-- One value ends at one place. -/
theorem PassesTo.unique {s t u : Bytes} (ht : PassesTo s t) (hu : PassesTo s u) : t = u := by
  have h := ht.skipValue
  rw [hu.skipValue] at h
  cases h
  rfl

theorem passesTo_scalar {b : UInt8} {s rest t : Bytes} (hs : skipBlanks s = b :: rest)
    (hlist : b ≠ leftBracket) (hobject : b ≠ leftBrace) (h : skipScalar b rest = .ok t) :
    PassesTo s t := by
  intro stack
  rw [skipIn_cons hs, if_neg hlist, if_neg hobject, h]
  rfl

theorem passesTo_opening (frame : Frame) {s rest t : Bytes}
    (hs : skipBlanks s = frame.opening :: rest)
    (h : ∀ stack, skipFirst frame stack rest = skipAfter stack t) : PassesTo s t := by
  intro stack
  rw [skipIn_opening hs, h]

/-- A value in brackets ends at its closing bracket, whatever follows. -/
theorem skipValue_append_of_opening {frame : Frame} {s rest t : Bytes}
    (hs : skipBlanks s = frame.opening :: rest)
    (h : ∀ stack, skipFirst frame stack rest = skipAfter stack t) (more : Bytes) :
    skipValue (s ++ more) = .ok (t ++ more) := by
  have hfirst := h []
  rw [skipAfter_empty] at hfirst
  have happend := skipFirst_append hfirst [] more
  rw [skipAfter_empty] at happend
  rw [skipValue, skipIn_opening (skipBlanks_append hs more)]
  exact happend

/-! ## Texts and numbers -/

theorem skipString_of_readString {s content t : Bytes} (h : readString s = .ok (content, t)) :
    skipString s = .ok t := by
  fun_induction readString s generalizing content with
  | case2 s =>
    cases h
    exact skipString_quote _
  | case9 a b c d high hhigh _ _ a' b' c' d' s low hlow _ _ ih =>
    obtain ⟨more, hr, -⟩ := prepend_eq_ok h
    rw [skipString_code hhigh, skipString_code hlow, ih hr]
  | case14 a b c d s n hn _ _ _ ih =>
    obtain ⟨more, hr, -⟩ := prepend_eq_ok h
    rw [skipString_code hn, ih hr]
  | case17 e s hu octet he _ ih =>
    obtain ⟨more, hr, -⟩ := prepend_eq_ok h
    rw [skipString_letter he, ih hr]
  | case19 b s hq hs hc ih =>
    obtain ⟨more, hr, -⟩ := prepend_eq_ok h
    rw [skipString_plain hq hs hc, ih hr]
  | _ => cases h

theorem skipString_of_readText {s t : Bytes} {text : String} (h : readText s = .ok (text, t)) :
    skipString s = .ok t := by
  unfold readText at h
  split at h
  · cases h
  · rename_i hr
    split at h
    · cases h
    · cases h
      exact skipString_of_readString hr

section Ends

variable {atEnd : Cause} {s : Bytes}

theorem readWhole_of_ok {r : Bytes × Bytes} (h : readWhole atEnd s = .ok r) (atEnd' : Cause) :
    readWhole atEnd' s = .ok r := by
  cases s with
  | nil => cases h
  | cons d rest => exact h

theorem readFraction_of_ok {r : Option Bytes × Bytes} (h : readFraction atEnd s = .ok r)
    (atEnd' : Cause) : readFraction atEnd' s = .ok r := by
  unfold readFraction at h ⊢
  split at h
  · exact h
  · split at h
    · rename_i hdot
      simp only [hdot, if_true]
      split at h
      · cases h
      · exact h
    · rename_i hdot
      rw [if_neg hdot]
      exact h

theorem readPower_of_ok {negative : Bool} {r : Option (Bool × Bytes) × Bytes}
    (h : readPower atEnd negative s = .ok r) (atEnd' : Cause) :
    readPower atEnd' negative s = .ok r := by
  cases s with
  | nil => cases h
  | cons d after => exact h

theorem readExponent_of_ok {r : Option (Bool × Bytes) × Bytes} (h : readExponent atEnd s = .ok r)
    (atEnd' : Cause) : readExponent atEnd' s = .ok r := by
  cases s with
  | nil => exact h
  | cons c rest =>
    by_cases hc : (c = 101 || c = 69) = true
    · rw [readExponent_mark atEnd hc] at h
      rw [readExponent_mark atEnd' hc]
      exact readPower_of_ok h atEnd'
    · simp only [readExponent, hc] at h ⊢
      exact h

/-- The cause that is kept for an early end does not matter where there is none. -/
theorem readNumberText_of_ok {r : NumberText × Bytes} (h : readNumberText atEnd s = .ok r)
    (atEnd' : Cause) : readNumberText atEnd' s = .ok r := by
  unfold readNumberText at h ⊢
  split at h
  · cases h
  · rename_i h₁
    split at h
    · cases h
    · rename_i h₂
      split at h
      · cases h
      · rename_i h₃
        simp only [readWhole_of_ok h₁ atEnd', readFraction_of_ok h₂ atEnd',
          readExponent_of_ok h₃ atEnd']
        exact h

end Ends

theorem skipNumber_of_readNumber {negative : Bool} {s t : Bytes} {n : Number}
    (h : readNumber negative s = .ok (n, t)) : skipNumber s = .ok t := by
  unfold readNumber at h
  split at h
  · cases h
  · rename_i hr
    rw [skipNumber, readNumberText_of_ok hr]
    split at h
    · cases h; rfl
    · split at h
      · cases h
      · cases h; rfl

theorem skipScalar_minus (s : Bytes) : skipScalar minus s = skipNumber s := rfl

theorem skipScalar_quote (s : Bytes) : skipScalar doubleQuote s = skipString s := rfl

theorem ne_of_isDigit {b c : UInt8} (hb : isDigit b = true) (hc : isDigit c = false) : b ≠ c := by
  rintro rfl
  rw [hb] at hc
  cases hc

theorem skipScalar_digit {d : UInt8} (hd : isDigit d = true) (s : Bytes) :
    skipScalar d s = skipNumber (d :: s) := by
  simp [skipScalar, ne_of_isDigit hd (c := 110) rfl, ne_of_isDigit hd (c := 116) rfl,
    ne_of_isDigit hd (c := 102) rfl, ne_of_isDigit hd (c := doubleQuote) rfl,
    ne_of_isDigit hd (c := minus) rfl, hd]

theorem passesTo_of_readTextValue {s t : Bytes} {text : String}
    (h : readTextValue s = .ok (text, t)) : PassesTo s t := by
  unfold readTextValue at h
  split at h
  · cases h
  · rename_i hs
    split at h
    · rename_i hb
      subst hb
      refine passesTo_scalar hs (by decide) (by decide) ?_
      rw [skipScalar_quote]
      exact skipString_of_readText h
    · cases h

theorem passesTo_of_readIntegerIn {low high i : Int} {expected : String} {s t : Bytes}
    (h : readIntegerIn low high expected s = .ok (i, t)) : PassesTo s t := by
  unfold readIntegerIn at h
  split at h
  · cases h
  · rename_i hs
    split at h
    · rename_i hb
      subst hb
      refine passesTo_scalar hs (by decide) (by decide) ?_
      rw [skipScalar_minus]
      exact skipNumber_of_readNumber (integerOf_eq_ok h)
    · split at h
      · rename_i hd
        refine passesTo_scalar hs (ne_of_isDigit hd rfl) (ne_of_isDigit hd rfl) ?_
        rw [skipScalar_digit hd]
        exact skipNumber_of_readNumber (integerOf_eq_ok h)
      · cases h

/-! ## Lists and objects -/

/-- The skipper inside of an open bracket, in front of the first value or behind an earlier one. -/
def skipNext (first : Bool) (frame : Frame) (stack : List Frame) (s : Bytes) :
    Except Fault Bytes :=
  if first then skipFirst frame stack s else skipAfter (frame :: stack) s

section Steps

variable (frame : Frame) {s rest : Bytes}

theorem skipNext_close (first : Bool) (stack : List Frame)
    (hs : skipBlanks s = frame.close :: rest) :
    skipNext first frame stack s = skipAfter stack rest := by
  cases first with
  | false => exact (skipAfter_cons hs).trans (if_pos rfl)
  | true => exact (skipFirst_cons hs).trans (if_pos rfl)

theorem skipNext_first {b : UInt8} (stack : List Frame) (hs : skipBlanks s = b :: rest)
    (hb : b ≠ frame.close) :
    skipNext true frame stack s = (skipToValue frame (b :: rest)).bind (skipIn (frame :: stack)) :=
  (skipFirst_cons hs).trans (if_neg hb)

theorem skipNext_comma (stack : List Frame) (hs : skipBlanks s = comma :: rest) :
    skipNext false frame stack s = (skipToValue frame rest).bind (skipIn (frame :: stack)) := by
  have hne : comma ≠ frame.close := by cases frame <;> decide
  exact (skipAfter_cons hs).trans ((if_neg hne).trans (if_pos rfl))

end Steps

theorem skipNext_of_nextItem_end {first : Bool} {s t : Bytes}
    (h : nextItem first s = .ok (false, t)) (stack : List Frame) :
    skipNext first .list stack s = skipAfter stack t.tail := by
  unfold nextItem at h
  split at h
  · cases h
  · rename_i hs
    split at h
    · rename_i hb
      cases h
      subst hb
      exact skipNext_close _ first stack hs
    · split at h
      · cases h
      · split at h
        · split at h
          · cases h
          · split at h <;> cases h
        · cases h

theorem skipNext_of_nextItem {first : Bool} {s t : Bytes} (h : nextItem first s = .ok (true, t))
    (stack : List Frame) : skipNext first .list stack s = skipIn (.list :: stack) t := by
  unfold nextItem at h
  split at h
  · cases h
  · rename_i hs
    split at h
    · cases h
    · rename_i hb
      split at h
      · rename_i hfirst
        cases h
        subst hfirst
        exact skipNext_first .list stack hs hb
      · rename_i hfirst
        rw [Bool.not_eq_true] at hfirst
        subst hfirst
        split at h
        · rename_i hc
          subst hc
          split at h
          · cases h
          · rename_i hnext
            split at h
            · cases h
            · cases h
              rw [← hnext, skipIn_skipBlanks]
              exact skipNext_comma _ stack hs
        · cases h

theorem skipAfter_of_closeList {s t : Bytes} (h : closeList s = .ok t) (stack : List Frame) :
    skipAfter (.list :: stack) s = skipAfter stack t := by
  unfold closeList at h
  split at h
  · cases h
  · rename_i hs
    split at h
    · rename_i hb
      cases h
      subst hb
      exact skipNext_close .list false stack hs
    · split at h
      · split at h <;> cases h
      · cases h

theorem skipNext_of_nextKey_end {first : Bool} {s t : Bytes}
    (h : nextKey first s = .ok (none, t)) (stack : List Frame) :
    skipNext first .object stack s = skipAfter stack t := by
  unfold nextKey at h
  split at h
  · cases h
  · rename_i hs
    split at h
    · rename_i hb
      cases h
      subst hb
      exact skipNext_close _ first stack hs
    · split at h
      · split at h
        · split at h <;> cases h
        · cases h
      · split at h
        · split at h
          · cases h
          · split at h
            · split at h <;> cases h
            · split at h <;> cases h
        · cases h

theorem skipBlanks_of_readColon {t u : Bytes} (h : readColon t = .ok u) :
    skipBlanks t = colon :: u := by
  unfold readColon at h
  split at h
  · cases h
  · rename_i ht
    split at h
    · rename_i hb
      cases h
      rw [ht, hb]
    · cases h

theorem skipKey_of_readText {s rest t u : Bytes} {name : String}
    (hs : skipBlanks s = doubleQuote :: rest) (hname : readText rest = .ok (name, t))
    (hcolon : readColon t = .ok u) : skipKey s = .ok u := by
  simp only [skipKey, hs, if_true, skipString_of_readText hname, skipBlanks_of_readColon hcolon]

theorem skipNext_of_nextKey {first : Bool} {s t u : Bytes} {name : String}
    (h : nextKey first s = .ok (some name, t)) (hcolon : readColon t = .ok u)
    (stack : List Frame) :
    skipNext first .object stack s = skipIn (.object :: stack) u := by
  unfold nextKey at h
  split at h
  · cases h
  · rename_i hs
    split at h
    · cases h
    · rename_i hb
      split at h
      · rename_i hfirst
        subst hfirst
        split at h
        · rename_i hq
          subst hq
          split at h
          · cases h
          · rename_i hname
            cases h
            have hkey := skipKey_of_readText (skipBlanks_cons rfl _) hname hcolon
            rw [skipNext_first .object stack hs hb, skipToValue, hkey]
            rfl
        · cases h
      · rename_i hfirst
        rw [Bool.not_eq_true] at hfirst
        subst hfirst
        split at h
        · rename_i hc
          subst hc
          split at h
          · cases h
          · rename_i hnext
            split at h
            · rename_i hq
              subst hq
              split at h
              · cases h
              · rename_i hname
                cases h
                have hkey := skipKey_of_readText hnext hname hcolon
                rw [skipNext_comma _ stack hs, skipToValue, hkey]
                rfl
            · split at h <;> cases h
        · cases h

/-! ## Lists of pairs -/

theorem passesTo_of_readPair {s t : Bytes} {p : String × String} (h : readPair s = .ok (p, t)) :
    PassesTo s t := by
  unfold readPair at h
  split at h
  · cases h
  · rename_i hs
    split at h
    · rename_i hb
      subst hb
      refine passesTo_opening .list hs fun stack => ?_
      unfold readPairItems at h
      split at h
      · cases h
      · cases h
      · rename_i h₁
        split at h
        · cases h
        · rename_i h₂
          split at h
          · cases h
          · cases h
          · rename_i h₃
            split at h
            · cases h
            · rename_i h₄
              split at h
              · cases h
              · rename_i h₅
                cases h
                have hfirst := skipNext_of_nextItem h₁ stack
                have hsecond := skipNext_of_nextItem h₃ stack
                exact hfirst.trans ((passesTo_of_readTextValue h₂ _).trans
                  (hsecond.trans ((passesTo_of_readTextValue h₄ _).trans
                    (skipAfter_of_closeList h₅ stack))))
    · cases h

theorem skipNext_of_readPairsFrom {first : Bool} {s t : Bytes} {ps : List (String × String)}
    (h : readPairsFrom first s = .ok (ps, t)) (stack : List Frame) :
    skipNext first .list stack s = skipAfter stack t := by
  fun_induction readPairsFrom first s generalizing ps with
  | case2 first s u hn =>
    cases h
    exact skipNext_of_nextItem_end hn stack
  | case5 first s u hn p rest hp ps rest' hr ih =>
    cases h
    exact (skipNext_of_nextItem hn stack).trans ((passesTo_of_readPair hp _).trans (ih hr))
  | _ => cases h

theorem passesTo_of_readPairs {s t : Bytes} {ps : List (String × String)}
    (h : readPairs s = .ok (ps, t)) : PassesTo s t := by
  unfold readPairs at h
  split at h
  · cases h
  · rename_i hs
    split at h
    · rename_i hb
      subst hb
      exact passesTo_opening .list hs fun stack => skipNext_of_readPairsFrom h stack
    · cases h

end Json
end HttpCache
