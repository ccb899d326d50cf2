import HttpCache.Json.Number

/-!
# HttpCache.Json.Skip

Passing over a JSON value of any shape and any depth.

* `skipScalar` — passes over a literal, a number or a string.
* `skipValue` — passes over any value. The open brackets are kept on a stack, so depth costs
  nothing but memory.

A skipped number may have any size. `skipValue_lt` says that a value is never empty.
-/

namespace HttpCache
namespace Json

open Ascii

inductive Frame where
  | list
  | object
  deriving DecidableEq, Repr

namespace Frame

def opening : Frame → UInt8
  | list => leftBracket
  | object => leftBrace

def close : Frame → UInt8
  | list => rightBracket
  | object => rightBrace

def unfinished : Frame → Unfinished
  | list => .list
  | object => .object

def expectedCommaOrEnd : Frame → Cause
  | list => .expectedListCommaOrEnd
  | object => .expectedObjectCommaOrEnd

end Frame

def skipNumber (s : Bytes) : Except Fault Bytes :=
  match readNumberText .invalidNumber s with
  | .error e => .error e
  | .ok (_, rest) => .ok rest

/-- Passes over a value that is not a list or an object and starts with `b`. -/
def skipScalar (b : UInt8) (rest : Bytes) : Except Fault Bytes :=
  if b = 110 then readLiteral [117, 108, 108] rest
  else if b = 116 then readLiteral [114, 117, 101] rest
  else if b = 102 then readLiteral [97, 108, 115, 101] rest
  else if b = doubleQuote then skipString rest
  else if b = minus then skipNumber rest
  else if isDigit b then skipNumber (b :: rest)
  else .error ⟨.expectedValue, rest⟩

def skipKey (s : Bytes) : Except Fault Bytes :=
  match skipBlanks s with
  | [] => .error ⟨.endOf .object, []⟩
  | b :: rest =>
    if b = doubleQuote then
      match skipString rest with
      | .error e => .error e
      | .ok rest =>
        match skipBlanks rest with
        | [] => .error ⟨.endOf .object, []⟩
        | c :: rest => if c = colon then .ok rest else .error ⟨.expectedColon, rest⟩
    else .error ⟨.keyNotText, rest⟩

/-- Goes to the start of the next value inside `frame`. -/
def skipToValue (frame : Frame) (s : Bytes) : Except Fault Bytes :=
  match frame with
  | .list => .ok s
  | .object => skipKey s

/-! ## What is left over is an end of the input -/

theorem skipNumber_suffix {s t : Bytes} (h : skipNumber s = .ok t) : t <:+ s := by
  unfold skipNumber at h
  split at h
  · cases h
  · rename_i hr; cases h; exact readNumberText_suffix hr

theorem isDigit_of_readWhole {atEnd : Cause} {b : UInt8} {s t w : Bytes}
    (h : readWhole atEnd (b :: s) = .ok (w, t)) : t <:+ s := by
  simp only [readWhole] at h
  split at h
  · split at h
    · cases h; exact List.nil_suffix
    · split at h
      · cases h
      · cases h; exact List.suffix_rfl
  · split at h
    · rename_i hd
      cases h
      rw [List.dropWhile_cons_of_pos (by simpa using hd)]
      exact List.dropWhile_suffix _
    · cases h

theorem skipNumber_cons_suffix {b : UInt8} {s t : Bytes} (h : skipNumber (b :: s) = .ok t) :
    t <:+ s := by
  unfold skipNumber readNumberText at h
  split at h
  · cases h
  · rename_i hr
    split at hr
    · cases hr
    · rename_i h₁
      split at hr
      · cases hr
      · rename_i h₂
        split at hr
        · cases hr
        · rename_i h₃
          cases hr
          cases h
          exact (readExponent_suffix h₃).trans
            ((readFraction_suffix h₂).trans (isDigit_of_readWhole h₁))

theorem skipScalar_suffix {b : UInt8} {s t : Bytes} (h : skipScalar b s = .ok t) : t <:+ s := by
  unfold skipScalar at h
  split at h
  · exact readLiteral_suffix h
  · split at h
    · exact readLiteral_suffix h
    · split at h
      · exact readLiteral_suffix h
      · split at h
        · exact skipString_suffix h
        · split at h
          · exact skipNumber_suffix h
          · split at h
            · exact skipNumber_cons_suffix h
            · cases h

theorem skipKey_suffix {s t : Bytes} (h : skipKey s = .ok t) : t <:+ s := by
  unfold skipKey at h
  split at h
  · cases h
  · rename_i b rest heq
    have hs := heq ▸ skipBlanks_suffix s
    split at h
    · split at h
      · cases h
      · rename_i rest' hstr
        split at h
        · cases h
        · rename_i c tail hc
          have ht := hc ▸ skipBlanks_suffix rest'
          split at h
          · cases h
            exact ((List.suffix_cons _ _).trans ht).trans
              ((skipString_suffix hstr).trans ((List.suffix_cons _ _).trans hs))
          · cases h
    · cases h

theorem skipToValue_suffix {frame : Frame} {s t : Bytes} (h : skipToValue frame s = .ok t) :
    t <:+ s := by
  cases frame with
  | list => cases h; exact List.suffix_rfl
  | object => exact skipKey_suffix h

theorem length_lt_of_skipBlanks {b : UInt8} {s rest t : Bytes} (h : skipBlanks s = b :: rest)
    (ht : t <:+ rest) : t.length < s.length := by
  have h₁ := (h ▸ skipBlanks_suffix s).length_le
  have h₂ := ht.length_le
  simp at h₁
  omega

/-! ## Whole values -/

mutual

/-- Passes over a value, with the given brackets open around it. -/
def skipIn (stack : List Frame) (s : Bytes) : Except Fault Bytes :=
  match _hs : skipBlanks s with
  | [] => .error ⟨.endOf .value, []⟩
  | b :: rest =>
    if b = leftBracket then skipFirst .list stack rest
    else if b = leftBrace then skipFirst .object stack rest
    else
      match _ht : skipScalar b rest with
      | .error e => .error e
      | .ok rest => skipAfter stack rest
  termination_by (s.length, 1)
  decreasing_by
    · exact .left _ _ (length_lt_of_skipBlanks _hs List.suffix_rfl)
    · exact .left _ _ (length_lt_of_skipBlanks _hs List.suffix_rfl)
    · exact .left _ _ (length_lt_of_skipBlanks _hs (skipScalar_suffix _ht))

def skipFirst (frame : Frame) (stack : List Frame) (s : Bytes) : Except Fault Bytes :=
  match _hs : skipBlanks s with
  | [] => .error ⟨.endOf frame.unfinished, []⟩
  | b :: rest =>
    if b = frame.close then skipAfter stack rest
    else
      match _ht : skipToValue frame (b :: rest) with
      | .error e => .error e
      | .ok value => skipIn (frame :: stack) value
  termination_by (s.length, 2)
  decreasing_by
    · exact .left _ _ (length_lt_of_skipBlanks _hs List.suffix_rfl)
    · have h₁ := (skipToValue_suffix _ht).length_le
      have h₂ := (_hs ▸ skipBlanks_suffix s).length_le
      rcases Nat.lt_or_ge value.length s.length with h | h
      · exact .left _ _ h
      · have : value.length = s.length := by omega
        rw [this]
        exact .right _ (by omega)

def skipAfter (stack : List Frame) (s : Bytes) : Except Fault Bytes :=
  match stack with
  | [] => .ok s
  | frame :: outer =>
    match _hs : skipBlanks s with
    | [] => .error ⟨.endOf frame.unfinished, []⟩
    | b :: rest =>
      if b = frame.close then skipAfter outer rest
      else if b = comma then
        match _ht : skipToValue frame rest with
        | .error e => .error e
        | .ok value => skipIn (frame :: outer) value
      else .error ⟨frame.expectedCommaOrEnd, rest⟩
  termination_by (s.length, 0)
  decreasing_by
    · exact .left _ _ (length_lt_of_skipBlanks _hs List.suffix_rfl)
    · exact .left _ _ (length_lt_of_skipBlanks _hs (skipToValue_suffix _ht))

end

def skipValue (s : Bytes) : Except Fault Bytes := skipIn [] s

mutual

theorem skipIn_lt {stack : List Frame} {s t : Bytes} (h : skipIn stack s = .ok t) :
    t.length < s.length := by
  unfold skipIn at h
  split at h
  · cases h
  · rename_i hs
    have hl := length_lt_of_skipBlanks hs List.suffix_rfl
    split at h
    · exact Nat.lt_of_le_of_lt (skipFirst_le h) hl
    · split at h
      · exact Nat.lt_of_le_of_lt (skipFirst_le h) hl
      · split at h
        · cases h
        · rename_i ht
          have hr := length_lt_of_skipBlanks hs (skipScalar_suffix ht)
          exact Nat.lt_of_le_of_lt (skipAfter_le h) hr
  termination_by (s.length, 1)
  decreasing_by all_goals exact .left _ _ ‹_›

theorem skipFirst_le {frame : Frame} {stack : List Frame} {s t : Bytes}
    (h : skipFirst frame stack s = .ok t) : t.length ≤ s.length := by
  unfold skipFirst at h
  split at h
  · cases h
  · rename_i hs
    have hl := length_lt_of_skipBlanks hs List.suffix_rfl
    split at h
    · exact Nat.le_of_lt (Nat.lt_of_le_of_lt (skipAfter_le h) hl)
    · split at h
      · cases h
      · rename_i value ht
        have hv : value.length ≤ s.length :=
          Nat.le_trans (skipToValue_suffix ht).length_le (hs ▸ skipBlanks_suffix s).length_le
        exact Nat.le_trans (Nat.le_of_lt (skipIn_lt h)) hv
  termination_by (s.length, 2)
  decreasing_by
    · rcases Nat.lt_or_eq_of_le hv with h | h
      · exact .left _ _ h
      · exact h ▸ .right _ (by omega)
    · exact .left _ _ hl

theorem skipAfter_le {stack : List Frame} {s t : Bytes} (h : skipAfter stack s = .ok t) :
    t.length ≤ s.length := by
  unfold skipAfter at h
  split at h
  · cases h
    exact Nat.le_refl _
  · split at h
    · cases h
    · rename_i hs
      have hl := length_lt_of_skipBlanks hs List.suffix_rfl
      split at h
      · exact Nat.le_of_lt (Nat.lt_of_le_of_lt (skipAfter_le h) hl)
      · split at h
        · split at h
          · cases h
          · rename_i ht
            have hv := length_lt_of_skipBlanks hs (skipToValue_suffix ht)
            exact Nat.le_of_lt (Nat.lt_trans (skipIn_lt h) hv)
        · cases h
  termination_by (s.length, 0)
  decreasing_by all_goals exact .left _ _ ‹_›

end

theorem skipValue_lt {s t : Bytes} (h : skipValue s = .ok t) : t.length < s.length := skipIn_lt h

end Json
end HttpCache
