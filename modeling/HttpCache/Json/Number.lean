import HttpCache.Json.Token

/-!
# HttpCache.Json.Number

JSON numbers.

* `NumberText` — the digits of a number as written; `readNumberText` reads them after the sign.
* `Number` — an integer of at most 64 bits, or a floating-point number.
* `readNumber` — the value of a number; it fails where a floating-point number would overflow.

An integer that no 64 bits hold, and minus zero, are floating-point numbers. Of the digits of a
floating-point number only those count that fit 64 bits, and its digits and its power of ten are
rounded one after the other, so that it is not always the nearest number.
-/

namespace HttpCache
namespace Json

open Ascii

structure NumberText where
  whole : Bytes
  fraction : Option Bytes
  /-- Whether the exponent is negative, and its digits. -/
  exponent : Option (Bool × Bytes)
  deriving DecidableEq, Repr

inductive Number where
  | integer (i : Int)
  | float (x : Binary64)
  deriving DecidableEq, Repr

def readExponent (atEnd : Cause) (s : Bytes) : Except Fault (Option (Bool × Bytes) × Bytes) :=
  match s with
  | [] => .ok (none, [])
  | b :: rest =>
    if b = 101 || b = 69 then
      let negative := rest.head? == some minus
      let digits := if negative || rest.head? == some plus then rest.tail else rest
      match digits with
      | [] => .error ⟨atEnd, []⟩
      | d :: after =>
        if isDigit d then
          .ok (some (negative, digits.takeWhile isDigit), digits.dropWhile isDigit)
        else .error ⟨.invalidNumber, after⟩
    else .ok (none, s)

def readFraction (atEnd : Cause) (s : Bytes) : Except Fault (Option Bytes × Bytes) :=
  match s with
  | [] => .ok (none, [])
  | b :: rest =>
    if b = dot then
      match rest with
      | [] => .error ⟨atEnd, []⟩
      | d :: after =>
        if isDigit d then .ok (some (rest.takeWhile isDigit), rest.dropWhile isDigit)
        else .error ⟨.invalidNumber, after⟩
    else .ok (none, s)

/-- Reads the digits in front of the point; a zero stands alone. -/
def readWhole (atEnd : Cause) (s : Bytes) : Except Fault (Bytes × Bytes) :=
  match s with
  | [] => .error ⟨atEnd, []⟩
  | d :: rest =>
    if d = zero then
      match rest with
      | [] => .ok ([zero], [])
      | c :: after => if isDigit c then .error ⟨.invalidNumber, after⟩ else .ok ([zero], rest)
    else if isDigit d then .ok (s.takeWhile isDigit, s.dropWhile isDigit)
    else .error ⟨.invalidNumber, rest⟩

/-- Reads a number after its sign; `atEnd` is the cause where the text ends too early. -/
def readNumberText (atEnd : Cause) (s : Bytes) : Except Fault (NumberText × Bytes) :=
  match readWhole atEnd s with
  | .error e => .error e
  | .ok (whole, s) =>
    match readFraction atEnd s with
    | .error e => .error e
    | .ok (fraction, s) =>
      match readExponent atEnd s with
      | .error e => .error e
      | .ok (exponent, s) => .ok (⟨whole, fraction, exponent⟩, s)

def digitsValue (digits : Bytes) : Nat := digits.foldl (fun n d => n * 10 + (d.toNat - 48)) 0

def maxNatural : Nat := 0xFFFFFFFFFFFFFFFF

/-- Appends digits to a number while it fits 64 bits; also how many were appended. -/
def appendDigits (n : Nat) : Bytes → Nat × Nat
  | [] => (n, 0)
  | d :: rest =>
    let next := n * 10 + (d.toNat - 48)
    if next ≤ maxNatural then
      let (value, count) := appendDigits next rest
      (value, count + 1)
    else (n, 0)

/-- A number over a power of ten. Powers above `10^308` are divided by in several steps, and each
step rounds. -/
def scaleDown (x : Binary64) (n : Nat) : Binary64 :=
  if n ≤ 308 then x.div (.ofDecimal false 1 n)
  else if x.isNonzero then scaleDown (x.div (.ofDecimal false 1 308)) (n - 308)
  else x
  termination_by n

def maxExponent : Nat := 0x7FFFFFFF

/-- The digits of an exponent that follow the one with which it gets too large. -/
def excessDigits (n : Nat) : Bytes → Bytes
  | [] => []
  | d :: rest =>
    let next := n * 10 + (d.toNat - 48)
    if next ≤ maxExponent then excessDigits next rest else rest

namespace NumberText

/-- The digits that count, as a number. -/
def significand (t : NumberText) : Nat :=
  (appendDigits (appendDigits 0 t.whole).1 (t.fraction.getD [])).1

def power (t : NumberText) : Int :=
  let whole := appendDigits 0 t.whole
  let fraction := appendDigits whole.1 (t.fraction.getD [])
  let written : Int := match t.exponent with
    | none => 0
    | some (true, digits) => -(digitsValue digits : Int)
    | some (false, digits) => digitsValue digits
  ((t.whole.length : Int) - whole.2) - fraction.2 + written

/-- The floating-point number of a text, infinite where the range is left. The significand is
rounded before it is multiplied or divided. -/
def float (negative : Bool) (t : NumberText) : Binary64 :=
  let significand := Binary64.ofDecimal negative t.significand 0
  if t.power < 0 then scaleDown significand (-t.power).toNat
  else if 308 < t.power then
    if t.significand = 0 then significand else .infinity negative
  else significand.mul (.ofDecimal false 1 t.power)

/-- The digits at the end of a text that are not looked at when its number is out of range. -/
def excess (t : NumberText) : Bytes :=
  match t.exponent with
  | some (false, digits) => excessDigits 0 digits
  | _ => []

def number (negative : Bool) (t : NumberText) : Number :=
  let n := digitsValue t.whole
  if t.fraction.isNone && t.exponent.isNone && n ≤ maxNatural then
    if !negative then .integer n
    else if n = 0 || 0x8000000000000000 < n then .float (.ofDecimal true n 0)
    else .integer (-(n : Int))
  else .float (t.float negative)

end NumberText

def readNumber (negative : Bool) (s : Bytes) : Except Fault (Number × Bytes) :=
  match readNumberText (.endOf .value) s with
  | .error e => .error e
  | .ok (text, rest) =>
    match text.number negative with
    | .integer i => .ok (.integer i, rest)
    | .float x =>
      if x.isInfinite then .error ⟨.numberOutOfRange, text.excess ++ rest⟩ else .ok (.float x, rest)

/-! ## What is left over is an end of the input -/

theorem readExponent_suffix {atEnd : Cause} {s t : Bytes} {e : Option (Bool × Bytes)}
    (h : readExponent atEnd s = .ok (e, t)) : t <:+ s := by
  unfold readExponent at h
  split at h
  · cases h; exact List.suffix_rfl
  · rename_i b rest
    split at h
    · simp only at h
      split at h
      · cases h
      · rename_i d after heq
        split at h
        · cases h
          refine (List.dropWhile_suffix _).trans ?_
          split
          · exact (List.tail_suffix _).trans (List.suffix_cons _ _)
          · exact List.suffix_cons _ _
        · cases h
    · cases h; exact List.suffix_rfl

theorem readFraction_suffix {atEnd : Cause} {s t : Bytes} {f : Option Bytes}
    (h : readFraction atEnd s = .ok (f, t)) : t <:+ s := by
  unfold readFraction at h
  split at h
  · cases h; exact List.suffix_rfl
  · split at h
    · split at h
      · cases h
      · split at h
        · cases h
          exact (List.dropWhile_suffix _).trans (List.suffix_cons _ _)
        · cases h
    · cases h; exact List.suffix_rfl

theorem readWhole_suffix {atEnd : Cause} {s t w : Bytes} (h : readWhole atEnd s = .ok (w, t)) :
    t <:+ s := by
  unfold readWhole at h
  split at h
  · cases h
  · split at h
    · split at h
      · cases h; exact List.nil_suffix
      · split at h
        · cases h
        · cases h; exact List.suffix_cons _ _
    · split at h
      · cases h; exact List.dropWhile_suffix _
      · cases h

theorem readNumberText_suffix {atEnd : Cause} {s t : Bytes} {text : NumberText}
    (h : readNumberText atEnd s = .ok (text, t)) : t <:+ s := by
  unfold readNumberText at h
  split at h
  · cases h
  · rename_i h₁
    split at h
    · cases h
    · rename_i h₂
      split at h
      · cases h
      · rename_i h₃
        cases h
        exact (readExponent_suffix h₃).trans
          ((readFraction_suffix h₂).trans (readWhole_suffix h₁))

theorem readNumber_suffix {negative : Bool} {s t : Bytes} {n : Number}
    (h : readNumber negative s = .ok (n, t)) : t <:+ s := by
  unfold readNumber at h
  split at h
  · cases h
  · rename_i hr
    split at h
    · cases h; exact readNumberText_suffix hr
    · split at h
      · cases h
      · cases h; exact readNumberText_suffix hr

end Json
end HttpCache
