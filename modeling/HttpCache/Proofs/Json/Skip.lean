import HttpCache.Json.Reader
import HttpCache.Proofs.Except
import HttpCache.Proofs.Json.Token

/-!
# HttpCache.Proofs.Json.Skip

What the skipper does at its next octet, and that it looks no further than it has to.

* `skipIn_cons`, `skipFirst_cons`, `skipAfter_cons` — the skipper in front of a value, of the first
  item in brackets, and behind a value.
* `skipString_append`, `skipScalar_append` — a string that was passed over is passed over whatever
  follows; so is a number or a literal that does not end the text.
* `skipIn_append` — so is a value, and whatever is open around it is left as it is.
-/

namespace HttpCache
namespace Json

open Ascii

/-! ## Blanks -/

theorem isBlank_of_skipBlanks {b : UInt8} {s rest : Bytes} (h : skipBlanks s = b :: rest) :
    isBlank b = false := by
  have hhead := List.head?_dropWhile_not isBlank s
  rw [← skipBlanks, h] at hhead
  simpa using hhead

theorem skipBlanks_append {b : UInt8} {s rest : Bytes} (h : skipBlanks s = b :: rest)
    (more : Bytes) : skipBlanks (s ++ more) = b :: (rest ++ more) := by
  have hne : s.dropWhile isBlank ≠ [] := by
    intro hnil
    rw [skipBlanks, hnil] at h
    cases h
  rw [skipBlanks, List.dropWhile_append, if_neg (by simpa using hne), ← skipBlanks, h]
  rfl

theorem skipBlanks_skipBlanks (s : Bytes) : skipBlanks (skipBlanks s) = skipBlanks s := by
  cases h : skipBlanks s with
  | nil => rfl
  | cons b rest => exact skipBlanks_cons (isBlank_of_skipBlanks h) rest

/-! ## The skipper at its next octet -/

section Equations

variable {frame : Frame} {stack outer : List Frame} {b : UInt8} {s rest : Bytes}

theorem skipIn_cons (h : skipBlanks s = b :: rest) :
    skipIn stack s =
      if b = leftBracket then skipFirst .list stack rest
      else if b = leftBrace then skipFirst .object stack rest
      else (skipScalar b rest).bind (skipAfter stack) := by
  rw [skipIn]
  split
  · rename_i hs; rw [h] at hs; cases hs
  · rename_i hs
    rw [h] at hs; cases hs
    split
    · rfl
    · split
      · rfl
      · split <;> rename_i hscalar <;> rw [hscalar] <;> rfl

theorem skipIn_opening (h : skipBlanks s = frame.opening :: rest) :
    skipIn stack s = skipFirst frame stack rest := by
  have hne : leftBrace ≠ leftBracket := by decide
  rw [skipIn_cons h]
  cases frame with
  | list => exact if_pos rfl
  | object => exact (if_neg hne).trans (if_pos rfl)

theorem skipFirst_cons (h : skipBlanks s = b :: rest) :
    skipFirst frame stack s =
      if b = frame.close then skipAfter stack rest
      else (skipToValue frame (b :: rest)).bind (skipIn (frame :: stack)) := by
  rw [skipFirst]
  split
  · rename_i hs; rw [h] at hs; cases hs
  · rename_i hs
    rw [h] at hs; cases hs
    split
    · rfl
    · split <;> rename_i hvalue <;> rw [hvalue] <;> rfl

theorem skipAfter_cons (h : skipBlanks s = b :: rest) :
    skipAfter (frame :: outer) s =
      if b = frame.close then skipAfter outer rest
      else if b = comma then (skipToValue frame rest).bind (skipIn (frame :: outer))
      else .error ⟨frame.expectedCommaOrEnd, rest⟩ := by
  rw [skipAfter]
  split
  · rename_i hs; rw [h] at hs; cases hs
  · rename_i hs
    rw [h] at hs; cases hs
    split
    · rfl
    · split
      · split <;> rename_i hvalue <;> rw [hvalue] <;> rfl
      · rfl

theorem skipIn_nil (h : skipBlanks s = []) : skipIn stack s = .error ⟨.endOf .value, []⟩ := by
  rw [skipIn]
  split
  · rfl
  · rename_i hs; rw [h] at hs; cases hs

theorem skipFirst_nil (h : skipBlanks s = []) :
    skipFirst frame stack s = .error ⟨.endOf frame.unfinished, []⟩ := by
  rw [skipFirst]
  split
  · rfl
  · rename_i hs; rw [h] at hs; cases hs

theorem skipAfter_nil (h : skipBlanks s = []) :
    skipAfter (frame :: outer) s = .error ⟨.endOf frame.unfinished, []⟩ := by
  rw [skipAfter]
  split
  · rfl
  · rename_i hs; rw [h] at hs; cases hs

theorem skipAfter_empty (s : Bytes) : skipAfter [] s = .ok s := by
  rw [skipAfter]

end Equations

theorem skipIn_skipBlanks (stack : List Frame) (s : Bytes) :
    skipIn stack (skipBlanks s) = skipIn stack s := by
  have hagain := skipBlanks_skipBlanks s
  cases h : skipBlanks s with
  | nil => rw [skipIn_nil h, skipIn_nil rfl]
  | cons b rest =>
    rw [h] at hagain
    rw [skipIn_cons h, skipIn_cons hagain]

/-! ## What has been passed over stays passed over -/

theorem readLiteral_append {es s t : Bytes} (h : readLiteral es s = .ok t) (more : Bytes) :
    readLiteral es (s ++ more) = .ok (t ++ more) := by
  induction es generalizing s with
  | nil => cases h; rfl
  | cons e es ih =>
    cases s with
    | nil => cases h
    | cons b rest =>
      simp only [List.cons_append, readLiteral] at h ⊢
      split at h
      · rename_i hb
        rw [if_pos hb]
        exact ih h
      · cases h

theorem skipString_append {s t : Bytes} (h : skipString s = .ok t) (more : Bytes) :
    skipString (s ++ more) = .ok (t ++ more) := by
  fun_induction skipString s with
  | case2 s =>
    cases h
    rw [List.cons_append, skipString_quote]
  | case5 a b c d s n hn _ ih =>
    simp only [List.cons_append]
    rw [skipString_code hn, ih h]
  | case8 e s hu octet he _ ih =>
    simp only [List.cons_append]
    rw [skipString_letter he, ih h]
  | case10 b s hq hs hc ih =>
    rw [List.cons_append, skipString_plain hq hs hc, ih h]
  | _ => cases h

/-- A run of digits ends at an octet that is there, so what comes behind it does not matter. -/
theorem span_append_of_dropWhile {member : UInt8 → Bool} {s t : Bytes} {b : UInt8}
    (h : s.dropWhile member = b :: t) (more : Bytes) :
    (s ++ more).takeWhile member = s.takeWhile member ∧
      (s ++ more).dropWhile member = b :: (t ++ more) := by
  induction s with
  | nil => cases h
  | cons c s ih =>
    by_cases hc : member c = true
    · rw [List.dropWhile_cons_of_pos hc] at h
      simpa [hc] using ih h
    · rw [List.dropWhile_cons_of_neg hc] at h
      cases h
      simp [hc]

theorem ne_nil_of_suffix {b : UInt8} {s t : Bytes} (h : b :: t <:+ s) : s ≠ [] := by
  rintro rfl
  cases List.suffix_nil.mp h

theorem readWhole_append {atEnd : Cause} {s w t : Bytes} {b : UInt8}
    (h : readWhole atEnd s = .ok (w, b :: t)) (more : Bytes) :
    readWhole atEnd (s ++ more) = .ok (w, b :: (t ++ more)) := by
  cases s with
  | nil => cases h
  | cons d rest =>
    simp only [readWhole, List.cons_append] at h ⊢
    split at h
    · rename_i hz
      rw [if_pos hz]
      cases rest with
      | nil => cases h
      | cons c after =>
        simp only [List.cons_append] at h ⊢
        split at h
        · cases h
        · rename_i hc
          cases h
          rw [if_neg hc]
    · rename_i hz
      rw [if_neg hz]
      split at h
      · rename_i hd
        rw [if_pos hd]
        simp only [Except.ok.injEq, Prod.mk.injEq] at h
        obtain ⟨htake, hdrop⟩ := span_append_of_dropWhile h.2 more
        rw [← List.cons_append, htake, hdrop, h.1]
      · cases h

theorem readFraction_append {atEnd : Cause} {s t : Bytes} {b : UInt8} {f : Option Bytes}
    (h : readFraction atEnd s = .ok (f, b :: t)) (more : Bytes) :
    readFraction atEnd (s ++ more) = .ok (f, b :: (t ++ more)) := by
  cases s with
  | nil => cases h
  | cons c rest =>
    simp only [readFraction, List.cons_append] at h ⊢
    split at h
    · rename_i hdot
      rw [if_pos hdot]
      cases rest with
      | nil => cases h
      | cons d after =>
        simp only [List.cons_append] at h ⊢
        split at h
        · rename_i hd
          rw [if_pos hd]
          simp only [Except.ok.injEq, Prod.mk.injEq] at h
          obtain ⟨htake, hdrop⟩ := span_append_of_dropWhile h.2 more
          rw [← List.cons_append, htake, hdrop, h.1]
        · cases h
    · rename_i hdot
      rw [if_neg hdot]
      cases h
      rfl

/-- Whether an exponent is negative, and what follows its sign. -/
def afterSign : Bytes → Bool × Bytes
  | [] => (false, [])
  | b :: rest =>
    if b = minus then (true, rest) else if b = plus then (false, rest) else (false, b :: rest)

theorem afterSign_append (b : UInt8) (rest more : Bytes) :
    afterSign (b :: rest ++ more) = ((afterSign (b :: rest)).1, (afterSign (b :: rest)).2 ++ more) := by
  simp only [afterSign, List.cons_append]
  split
  · rfl
  · split <;> rfl

/-- The digits of an exponent, after its sign. -/
def readPower (atEnd : Cause) (negative : Bool) (digits : Bytes) :
    Except Fault (Option (Bool × Bytes) × Bytes) :=
  match digits with
  | [] => .error ⟨atEnd, []⟩
  | d :: after =>
    if isDigit d then .ok (some (negative, digits.takeWhile isDigit), digits.dropWhile isDigit)
    else .error ⟨.invalidNumber, after⟩

theorem readExponent_mark (atEnd : Cause) {c : UInt8} (hc : (c = 101 || c = 69) = true)
    (rest : Bytes) :
    readExponent atEnd (c :: rest) = readPower atEnd (afterSign rest).1 (afterSign rest).2 := by
  simp only [readExponent, hc, if_true]
  cases rest with
  | nil => rfl
  | cons d rest =>
    by_cases hminus : d = minus
    · subst hminus; rfl
    · by_cases hplus : d = plus
      · subst hplus; rfl
      · have hbeq : (d == minus) = false := by simpa using hminus
        simp [afterSign, hminus, hplus, hbeq, readPower]

theorem readExponent_append {atEnd : Cause} {s t : Bytes} {b : UInt8}
    {e : Option (Bool × Bytes)} (h : readExponent atEnd s = .ok (e, b :: t)) (more : Bytes) :
    readExponent atEnd (s ++ more) = .ok (e, b :: (t ++ more)) := by
  cases s with
  | nil => cases h
  | cons c rest =>
    by_cases hc : (c = 101 || c = 69) = true
    · rw [readExponent_mark atEnd hc] at h
      rw [List.cons_append, readExponent_mark atEnd hc]
      cases rest with
      | nil => cases h
      | cons d rest =>
        rw [afterSign_append]
        unfold readPower at h ⊢
        split at h
        · cases h
        · rename_i first after heq
          split at h
          · rename_i hd
            simp only [Except.ok.injEq, Prod.mk.injEq] at h
            obtain ⟨htake, hdrop⟩ := span_append_of_dropWhile h.2 more
            simp only [heq, List.cons_append] at htake hdrop h ⊢
            simp only [hd, if_true, htake, hdrop, h.1]
          · cases h
    · simp only [readExponent, hc, List.cons_append] at h ⊢
      cases h
      rfl

theorem readNumberText_append {atEnd : Cause} {s t : Bytes} {b : UInt8} {text : NumberText}
    (h : readNumberText atEnd s = .ok (text, b :: t)) (more : Bytes) :
    readNumberText atEnd (s ++ more) = .ok (text, b :: (t ++ more)) := by
  unfold readNumberText at h ⊢
  split at h
  · cases h
  · rename_i whole s₁ h₁
    split at h
    · cases h
    · rename_i fraction s₂ h₂
      split at h
      · cases h
      · rename_i exponent s₃ h₃
        cases h
        -- each reader leaves at least the octet that the last one leaves
        obtain ⟨b₂, t₂, rfl⟩ := List.exists_cons_of_ne_nil (ne_nil_of_suffix (readExponent_suffix h₃))
        obtain ⟨b₁, t₁, rfl⟩ := List.exists_cons_of_ne_nil (ne_nil_of_suffix (readFraction_suffix h₂))
        simp only [readWhole_append h₁ more, ← List.cons_append, readFraction_append h₂ more,
          readExponent_append h₃ more]

theorem skipNumber_append {s t : Bytes} {b : UInt8} (h : skipNumber s = .ok (b :: t))
    (more : Bytes) : skipNumber (s ++ more) = .ok (b :: (t ++ more)) := by
  unfold skipNumber at h ⊢
  split at h
  · cases h
  · rename_i hr
    cases h
    rw [readNumberText_append hr more]

theorem skipScalar_append {b c : UInt8} {s t : Bytes} (h : skipScalar b s = .ok (c :: t))
    (more : Bytes) : skipScalar b (s ++ more) = .ok (c :: (t ++ more)) := by
  unfold skipScalar at h ⊢
  split at h
  · rename_i hb; rw [if_pos hb]; exact readLiteral_append h more
  · rename_i hb
    rw [if_neg hb]
    split at h
    · rename_i hb; rw [if_pos hb]; exact readLiteral_append h more
    · rename_i hb
      rw [if_neg hb]
      split at h
      · rename_i hb; rw [if_pos hb]; exact readLiteral_append h more
      · rename_i hb
        rw [if_neg hb]
        split at h
        · rename_i hb; rw [if_pos hb]; exact skipString_append h more
        · rename_i hb
          rw [if_neg hb]
          split at h
          · rename_i hb; rw [if_pos hb]; exact skipNumber_append h more
          · rename_i hb
            rw [if_neg hb]
            split at h
            · rename_i hb; rw [if_pos hb]; exact skipNumber_append h more
            · cases h

theorem skipKey_append {s t : Bytes} (h : skipKey s = .ok t) (more : Bytes) :
    skipKey (s ++ more) = .ok (t ++ more) := by
  unfold skipKey at h ⊢
  split at h
  · cases h
  · rename_i hs
    rw [skipBlanks_append hs more]
    split at h
    · rename_i hb
      simp only [hb, if_true]
      split at h
      · cases h
      · rename_i hstring
        rw [skipString_append hstring more]
        split at h
        · cases h
        · rename_i hs'
          dsimp only
          rw [skipBlanks_append hs' more]
          split at h
          · rename_i hc
            cases h
            simp only [hc, if_true]
          · cases h
    · cases h

theorem skipToValue_append {frame : Frame} {s t : Bytes} (h : skipToValue frame s = .ok t)
    (more : Bytes) : skipToValue frame (s ++ more) = .ok (t ++ more) := by
  cases frame with
  | list => cases h; rfl
  | object => exact skipKey_append h more

theorem ne_nil_of_skipAfter {frame : Frame} {outer : List Frame} {s t : Bytes}
    (h : skipAfter (frame :: outer) s = .ok t) : s ≠ [] := by
  rintro rfl
  rw [skipAfter_nil rfl] at h
  cases h

mutual

/-- Brackets `stack` around the open ones and octets `more` at the end do not change what is
passed over. Where no bracket is open nothing may be added, since a number could go on. -/
theorem skipIn_append {inner : List Frame} {s t : Bytes} (h : skipIn inner s = .ok t)
    (stack : List Frame) (more : Bytes) (hmore : inner = [] → more = []) :
    skipIn (inner ++ stack) (s ++ more) = skipAfter stack (t ++ more) := by
  cases hs : skipBlanks s with
  | nil => rw [skipIn_nil hs] at h; cases h
  | cons b rest =>
    have hl := length_lt_of_skipBlanks hs List.suffix_rfl
    rw [skipIn_cons hs] at h
    rw [skipIn_cons (skipBlanks_append hs more)]
    split at h
    · rename_i hb
      rw [if_pos hb]
      exact skipFirst_append h stack more
    · rename_i hb
      rw [if_neg hb]
      split at h
      · rename_i hb
        rw [if_pos hb]
        exact skipFirst_append h stack more
      · rename_i hb
        rw [if_neg hb]
        obtain ⟨after, hscalar, h⟩ := bind_eq_ok_iff.mp h
        have hl' := length_lt_of_skipBlanks hs (skipScalar_suffix hscalar)
        have happend : skipScalar b (rest ++ more) = .ok (after ++ more) := by
          cases inner with
          | nil => rw [hmore rfl, List.append_nil, List.append_nil, hscalar]
          | cons frame outer =>
            obtain ⟨c, after, rfl⟩ := List.exists_cons_of_ne_nil (ne_nil_of_skipAfter h)
            exact skipScalar_append hscalar more
        rw [happend]
        exact skipAfter_append h stack more
  termination_by (s.length, 1)
  decreasing_by all_goals exact .left _ _ ‹_›

theorem skipFirst_append {frame : Frame} {inner : List Frame} {s t : Bytes}
    (h : skipFirst frame inner s = .ok t) (stack : List Frame) (more : Bytes) :
    skipFirst frame (inner ++ stack) (s ++ more) = skipAfter stack (t ++ more) := by
  cases hs : skipBlanks s with
  | nil => rw [skipFirst_nil hs] at h; cases h
  | cons b rest =>
    have hl := length_lt_of_skipBlanks hs List.suffix_rfl
    rw [skipFirst_cons hs] at h
    rw [skipFirst_cons (skipBlanks_append hs more)]
    split at h
    · rename_i hb
      rw [if_pos hb]
      exact skipAfter_append h stack more
    · rename_i hb
      rw [if_neg hb]
      obtain ⟨value, hvalue, h⟩ := bind_eq_ok_iff.mp h
      have hv : value.length ≤ s.length :=
        Nat.le_trans (skipToValue_suffix hvalue).length_le (hs ▸ skipBlanks_suffix s).length_le
      rw [← List.cons_append, skipToValue_append hvalue more]
      exact skipIn_append h stack more nofun
  termination_by (s.length, 2)
  decreasing_by
    · rcases Nat.lt_or_eq_of_le hv with h | h
      · exact .left _ _ h
      · exact h ▸ .right _ (by omega)
    · exact .left _ _ hl

theorem skipAfter_append {inner : List Frame} {s t : Bytes} (h : skipAfter inner s = .ok t)
    (stack : List Frame) (more : Bytes) :
    skipAfter (inner ++ stack) (s ++ more) = skipAfter stack (t ++ more) := by
  cases inner with
  | nil =>
    rw [skipAfter_empty] at h
    cases h
    rfl
  | cons frame outer =>
    cases hs : skipBlanks s with
    | nil => rw [skipAfter_nil hs] at h; cases h
    | cons b rest =>
      have hl := length_lt_of_skipBlanks hs List.suffix_rfl
      rw [skipAfter_cons hs] at h
      rw [List.cons_append, skipAfter_cons (skipBlanks_append hs more)]
      split at h
      · rename_i hb
        rw [if_pos hb]
        exact skipAfter_append h stack more
      · rename_i hb
        rw [if_neg hb]
        split at h
        · rename_i hc
          rw [if_pos hc]
          obtain ⟨value, hvalue, h⟩ := bind_eq_ok_iff.mp h
          have hv := length_lt_of_skipBlanks hs (skipToValue_suffix hvalue)
          rw [skipToValue_append hvalue more]
          exact skipIn_append h stack more nofun
        · cases h
  termination_by (s.length, 0)
  decreasing_by all_goals exact .left _ _ ‹_›

end

end Json
end HttpCache
