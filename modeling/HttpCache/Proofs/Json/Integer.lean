import HttpCache.Proofs.Json.Spelling

/-!
# HttpCache.Proofs.Json.Integer

An integer of at most 64 bits is read back as it was written.

* `octets_ofInt` — what is written is a number, in one of its spellings.
* `readIntegerIn_integer` — the digits are all that is read.
-/

namespace HttpCache
namespace Json

open Ascii

/-! ## What is written -/

/-- The digits of a number, and that the first is not a zero unless the number is. -/
theorem ofNat_spec {n : Nat} (hn : 0 < n) :
    Whole.ofNat n ≠ .zero ∧ (Whole.ofNat n).octets = natural n := by
  induction n using Nat.strongRecOn with
  | _ n ih =>
    rw [Whole.ofNat, if_neg (Nat.ne_of_gt hn)]
    by_cases h : n < 10
    · have hdigit : Fin.ofNat 10 n ≠ 0 := by
        rw [Ne, Fin.ext_iff, Fin.val_ofNat, Nat.mod_eq_of_lt h]
        exact Nat.ne_of_gt hn
      rw [Nat.div_eq_of_lt h, Whole.ofNat, if_pos rfl, Whole.snoc, dif_pos hdigit, natural_lt h]
      refine ⟨(by intro heq; cases heq), ?_⟩
      simp [Whole.octets, Nat.mod_eq_of_lt h]
    · obtain ⟨hzero, hoctets⟩ := ih (n / 10) (by omega) (by omega)
      rw [natural_ge (by omega), ← hoctets]
      cases hw : Whole.ofNat (n / 10) with
      | zero => exact absurd hw hzero
      | counting first hfirst others =>
        refine ⟨(by intro heq; cases heq), ?_⟩
        simp [Whole.snoc, Whole.octets]

theorem octets_ofNat (n : Nat) : (Whole.ofNat n).octets = natural n := by
  cases n with
  | zero =>
    rw [Whole.ofNat, if_pos rfl, natural_lt (by omega)]
    rfl
  | succ n => exact (ofNat_spec (Nat.succ_pos n)).2

theorem octets_ofInt (i : Int) : (Numeral.ofInt i).octets = integer i := by
  have hunsigned : (Numeral.ofInt i).unsigned = natural i.natAbs := by
    rw [← octets_ofNat]
    simp [Numeral.unsigned, Numeral.ofInt, Numeral.fractionOctets, Numeral.exponentOctets]
  rw [Numeral.octets, hunsigned]
  by_cases hi : i < 0
  · rw [integer_neg hi, Numeral.ofInt, if_pos (decide_eq_true hi)]
  · rw [integer_nonneg (by omega), Numeral.ofInt, if_neg (by simpa using hi)]

/-! ## What is read -/

theorem natural_eq_cons (n : Nat) : ∃ d ds, natural n = d :: ds ∧ isDigit d = true :=
  octets_ofNat n ▸ whole_eq_cons (Whole.ofNat n)

theorem readWhole_natural (atEnd : Cause) (n : Nat) {rest : Bytes} (h : EndsNumber rest) :
    readWhole atEnd (natural n ++ rest) = .ok (natural n, rest) :=
  octets_ofNat n ▸ readWhole_octets atEnd (Whole.ofNat n) h.endsDigits

theorem readNumberText_natural (atEnd : Cause) (n : Nat) {rest : Bytes} (h : EndsNumber rest) :
    readNumberText atEnd (natural n ++ rest) = .ok (⟨natural n, none, none⟩, rest) := by
  simp [readNumberText, readWhole_natural atEnd n h, readFraction_none atEnd h.endsWhole,
    readExponent_end atEnd h]

theorem readNumber_natural {n : Nat} (hn : n ≤ maxNatural) {rest : Bytes} (h : EndsNumber rest) :
    readNumber false (natural n ++ rest) = .ok (.integer n, rest) := by
  simp [readNumber, readNumberText_natural _ n h, NumberText.number, digitsValue_natural, hn]

theorem readNumber_negative {n : Nat} (hpos : 0 < n) (hn : n ≤ 0x8000000000000000) {rest : Bytes}
    (h : EndsNumber rest) :
    readNumber true (natural n ++ rest) = .ok (.integer (-(n : Int)), rest) := by
  have hmax : n ≤ maxNatural := by simp only [maxNatural]; omega
  have hrange : (decide (n = 0) || decide (0x8000000000000000 < n)) = false := by
    rw [Bool.or_eq_false_iff, decide_eq_false_iff_not, decide_eq_false_iff_not]
    omega
  have hnumber : NumberText.number true ⟨natural n, none, none⟩ = .integer (-(n : Int)) := by
    simp only [NumberText.number, digitsValue_natural, hmax, hrange]
    rfl
  simp only [readNumber, readNumberText_natural _ n h, hnumber]

/-- An integer of a range within 64 bits is read back. -/
theorem readIntegerIn_integer {low high i : Int} (expected : String) {rest : Bytes}
    (h : EndsNumber rest) (hlow : low ≤ i) (hhigh : i ≤ high) (hmin : -0x8000000000000000 ≤ i)
    (hmax : i ≤ 0xFFFFFFFFFFFFFFFF) :
    readIntegerIn low high expected (integer i ++ rest) = .ok (i, rest) := by
  by_cases hi : i < 0
  · have hr := readNumber_negative (n := i.natAbs) (by omega) (by omega) h
    have habs : -(i.natAbs : Int) = i := by omega
    rw [habs] at hr
    rw [integer_neg hi, List.cons_append, readIntegerIn, skipBlanks_cons rfl]
    simp [hr, integerOf, hlow, hhigh]
  · have hr := readNumber_natural (n := i.natAbs) (by simp only [maxNatural]; omega) h
    have habs : (i.natAbs : Int) = i := by omega
    obtain ⟨d, ds, hcons, hdigit⟩ := natural_eq_cons i.natAbs
    rw [habs, hcons, List.cons_append] at hr
    rw [integer_nonneg (by omega), hcons, List.cons_append, readIntegerIn,
      skipBlanks_cons (isBlank_of_isDigit hdigit)]
    simp [ne_minus_of_isDigit hdigit, hdigit, hr, integerOf, hlow, hhigh]

end Json
end HttpCache
