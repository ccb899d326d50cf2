import HttpCache.Json.Reader
import HttpCache.Proofs.Json.Token

/-!
# HttpCache.Proofs.Json.Number

Digits, and where a number ends.

* `natural_lt`, `natural_ge` — the digits of a number, by recursion on the number.
* `digitsValue_natural` — they have the value of the number.
* `EndsNumber`, `EndsWhole`, `EndsDigits` — what may follow a number: nothing that would make it
  longer.
-/

namespace HttpCache
namespace Json

open Ascii

def decimalDigit (n : Nat) : UInt8 := UInt8.ofNat (48 + n)

theorem isDigit_decimalDigit : ∀ n, n < 10 → isDigit (decimalDigit n) = true := by decide

theorem decimalDigit_toNat : ∀ n, n < 10 → (decimalDigit n).toNat - 48 = n := by decide

theorem decimalDigit_ne_zero : ∀ n, n < 10 → 0 < n → decimalDigit n ≠ zero := by decide

theorem utf8_digit : ∀ n, n < 10 →
    String.utf8EncodeChar (Decimal.digit n) = [decimalDigit n] := by
  decide

theorem natural_lt {n : Nat} (h : n < 10) : natural n = [decimalDigit n] := by
  rw [natural, Decimal.text, Text.utf8_ofList, Decimal.digits, if_pos h]
  simp [utf8_digit n h]

theorem natural_ge {n : Nat} (h : 10 ≤ n) :
    natural n = natural (n / 10) ++ [decimalDigit (n % 10)] := by
  have hm : n % 10 < 10 := by omega
  rw [natural, Decimal.text, Text.utf8_ofList, Decimal.digits, if_neg (by omega)]
  simp [natural, Decimal.text, Text.utf8_ofList, utf8_digit _ hm]

theorem digitsValue_append (bs : Bytes) (b : UInt8) :
    digitsValue (bs ++ [b]) = digitsValue bs * 10 + (b.toNat - 48) := by
  simp [digitsValue, List.foldl_append]

theorem digitsValue_natural (n : Nat) : digitsValue (natural n) = n := by
  induction n using Nat.strongRecOn with
  | _ n ih =>
    by_cases h : n < 10
    · rw [natural_lt h]
      simp [digitsValue, decimalDigit_toNat n h]
    · rw [natural_ge (by omega), digitsValue_append, ih (n / 10) (by omega),
        decimalDigit_toNat _ (by omega)]
      omega

theorem isBlank_of_isDigit {b : UInt8} (h : isDigit b = true) : isBlank b = false := by
  rw [← Bool.not_eq_true]
  intro hb
  simp only [isBlank, Bool.or_eq_true, beq_iff_eq] at hb
  rcases hb with ((rfl | rfl) | rfl) | rfl <;> cases h

theorem ne_minus_of_isDigit {b : UInt8} (h : isDigit b = true) : b ≠ minus := by
  rintro rfl
  cases h

/-- The octets of `s` do not go on with a number: no digit, no point and no exponent comes first. -/
def EndsNumber (s : Bytes) : Prop :=
  ∀ b ∈ s.head?, isDigit b = false ∧ b ≠ dot ∧ b ≠ 101 ∧ b ≠ 69

/-- The octets of `s` do not go on with digits. -/
def EndsDigits (s : Bytes) : Prop := ∀ b ∈ s.head?, isDigit b = false

theorem EndsNumber.endsDigits {s : Bytes} (h : EndsNumber s) : EndsDigits s :=
  fun b hb => (h b hb).1

/-- The octets of `s` do not go on with a fraction. -/
def EndsWhole (s : Bytes) : Prop := ∀ b ∈ s.head?, isDigit b = false ∧ b ≠ dot

theorem EndsNumber.endsWhole {s : Bytes} (h : EndsNumber s) : EndsWhole s :=
  fun b hb => ⟨(h b hb).1, (h b hb).2.1⟩

theorem takeWhile_digits {ds s : Bytes} (h : ∀ b ∈ ds, isDigit b = true) (hs : EndsDigits s) :
    (ds ++ s).takeWhile isDigit = ds ∧ (ds ++ s).dropWhile isDigit = s := by
  rw [List.takeWhile_append_of_pos h, List.dropWhile_append_of_pos h]
  cases s with
  | nil => simp
  | cons b s => simp [hs b rfl]

theorem readFraction_none (atEnd : Cause) {s : Bytes} (hs : EndsWhole s) :
    readFraction atEnd s = .ok (none, s) := by
  cases s with
  | nil => rfl
  | cons b s => simp [readFraction, (hs b rfl).2]

theorem readExponent_end (atEnd : Cause) {rest : Bytes} (h : EndsNumber rest) :
    readExponent atEnd rest = .ok (none, rest) := by
  cases rest with
  | nil => rfl
  | cons b rest => simp [readExponent, (h b rfl).2.2.1, (h b rfl).2.2.2]

theorem integer_nonneg {i : Int} (h : 0 ≤ i) : integer i = natural i.natAbs := by
  rw [integer, Decimal.integerText, if_neg (by omega), natural]

theorem integer_neg {i : Int} (h : i < 0) : integer i = minus :: natural i.natAbs := by
  rw [integer, Decimal.integerText, if_pos h, Text.utf8_append, natural]
  rfl

theorem natural_eq_integer (n : Nat) : natural n = integer n := by
  rw [integer_nonneg (by omega), Int.natAbs_natCast]

end Json
end HttpCache
