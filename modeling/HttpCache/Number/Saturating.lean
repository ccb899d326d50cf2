/-!
# HttpCache.Number.Saturating

Arithmetic on signed words of 64 bits that stops at the bounds of a word and never wraps around.

* `Saturating.ofNat` — a natural number as a word (`toInt_ofNat`).
* `Saturating.add` — the sum of two words (`toInt_add`).
-/

namespace HttpCache
namespace Saturating

/-- A number as a word. The largest word stands for a number that does not fit. -/
def ofNat (n : Nat) : Int64 :=
  if (n : Int) ≤ Int64.maxValue.toInt then Int64.ofNat n else Int64.maxValue

/-- The sum of two words. A sum that has wrapped around is on the wrong side of the first of them;
then the bound that was passed stands for it. -/
def add (a b : Int64) : Int64 :=
  if 0 ≤ b then
    if a + b < a then Int64.maxValue else a + b
  else
    if a < a + b then Int64.minValue else a + b

theorem toInt_zero : (0 : Int64).toInt = 0 := rfl
theorem toInt_minValue : Int64.minValue.toInt = -9223372036854775808 := rfl
theorem toInt_maxValue : Int64.maxValue.toInt = 9223372036854775807 := rfl

theorem toInt_ofNat (n : Nat) : (ofNat n).toInt = min (n : Int) Int64.maxValue.toInt := by
  have hmax := toInt_maxValue
  unfold ofNat
  split
  · rw [Int64.toInt_ofNat_of_lt (by omega)]
    omega
  · omega

/-- A sum wraps around at most once, to the other end of the range. -/
theorem toInt_wrapping_add (a b : Int64) :
    (a + b).toInt =
      if a.toInt + b.toInt < Int64.minValue.toInt then a.toInt + b.toInt + Int64.size
      else if Int64.maxValue.toInt < a.toInt + b.toInt then a.toInt + b.toInt - Int64.size
      else a.toInt + b.toInt := by
  have ha := a.le_toInt
  have ha' := a.toInt_lt
  have hb := b.le_toInt
  have hb' := b.toInt_lt
  rw [Int64.toInt_add, Int.bmod, toInt_minValue, toInt_maxValue, Int64.size]
  omega

theorem toInt_add (a b : Int64) :
    (add a b).toInt =
      max Int64.minValue.toInt (min Int64.maxValue.toInt (a.toInt + b.toInt)) := by
  have ha := a.le_toInt
  have ha' := a.toInt_lt
  have hb := b.le_toInt
  have hb' := b.toInt_lt
  have hmin := toInt_minValue
  have hmax := toInt_maxValue
  have hsum := toInt_wrapping_add a b
  rw [Int64.size] at hsum
  unfold add
  simp only [Int64.le_iff_toInt_le, Int64.lt_iff_toInt_lt, toInt_zero]
  split
  · split <;> omega
  · split <;> omega

end Saturating
end HttpCache
