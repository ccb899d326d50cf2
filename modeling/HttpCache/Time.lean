import HttpCache.Number.Saturating
import HttpCache.Text.Decimal

/-!
# HttpCache.Time

Spans of time and the two clocks.

* `Span` — a length of time in nanoseconds; also the reading of a clock that only moves forward.
* `Span.text` — the short text of a span, in the largest unit that keeps it at least one.
* `unixNow` — the wall clock as a whole number of seconds since the epoch, within 64 signed bits;
  `unixWord` is the word that holds it.
-/

namespace HttpCache

structure Span where
  nanos : Nat
  deriving DecidableEq, Repr

namespace Span

instance : LE Span := ⟨fun a b => a.nanos ≤ b.nanos⟩
instance : LT Span := ⟨fun a b => a.nanos < b.nanos⟩
instance (a b : Span) : Decidable (a ≤ b) := inferInstanceAs (Decidable (a.nanos ≤ b.nanos))
instance (a b : Span) : Decidable (a < b) := inferInstanceAs (Decidable (a.nanos < b.nanos))
instance : Add Span := ⟨fun a b => ⟨a.nanos + b.nanos⟩⟩

def zero : Span := ⟨0⟩
def ofSeconds (n : Nat) : Span := ⟨n * 1000000000⟩
def ofMillis (n : Nat) : Span := ⟨n * 1000000⟩

def seconds (s : Span) : Nat := s.nanos / 1000000000

def subsecond (s : Span) : Nat := s.nanos % 1000000000

@[simp] theorem seconds_ofSeconds (n : Nat) : (ofSeconds n).seconds = n := by
  simp [seconds, ofSeconds]

/-- The digits of `n` in a field of the given width, without the zeros at the end. -/
def fraction (n width : Nat) : List Char :=
  let digits := Decimal.digits n
  let padded := List.replicate (width - digits.length) '0' ++ digits
  (padded.reverse.dropWhile (· == '0')).reverse

def withUnit (nanos width : Nat) (unit : String) : String :=
  let places := fraction (nanos % Nat.pow 10 width) width
  let point := if nanos % Nat.pow 10 width = 0 then "" else "." ++ String.ofList places
  Decimal.text (nanos / Nat.pow 10 width) ++ point ++ unit

def text (s : Span) : String :=
  if 1000000000 ≤ s.nanos then withUnit s.nanos 9 "s"
  else if 1000000 ≤ s.nanos then withUnit s.nanos 6 "ms"
  else if 1000 ≤ s.nanos then withUnit s.nanos 3 "µs"
  else withUnit s.nanos 0 "ns"

end Span

def maxSeconds : Int := 0x7FFFFFFFFFFFFFFF

def unixNow (wall : Int) : Int := min (max wall 0) maxSeconds

/-- The word of a wall clock. Before the epoch there is no time since it. -/
def unixWord (wall : Int) : Int64 := if wall < 0 then 0 else Saturating.ofNat wall.toNat

theorem toInt_unixWord (wall : Int) : (unixWord wall).toInt = unixNow wall := by
  have hmax := Saturating.toInt_maxValue
  unfold unixWord
  split
  · simp only [Saturating.toInt_zero, unixNow, maxSeconds]
    omega
  · simp only [Saturating.toInt_ofNat, unixNow, maxSeconds]
    omega

end HttpCache
