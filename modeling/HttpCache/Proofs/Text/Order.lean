import HttpCache.Proofs.Text.Ascii

/-!
# HttpCache.Proofs.Text.Order

Texts compare by code points as their UTF-8 octets do (`utf8_le_iff`), so that a sort of texts is a
sort by octets.

* `Coded` — the octets of one code: a lead octet says how many follow, and they are digits.
* `Coded.lt` — of two codes the smaller one has smaller octets, whatever comes after them.
-/

namespace HttpCache
namespace Text

/-- The octets of a code: itself, or a lead octet and digits to base 64. Lead octets of longer
sequences are larger. -/
inductive Coded (code : Nat) : Bytes → Prop where
  | one {a : UInt8} (hcode : code < 128) (ha : a.toNat = code) : Coded code [a]
  | two {a b : UInt8} (hcode : 128 ≤ code ∧ code < 2048) (ha : a.toNat = 192 + code / 64)
      (hb : b.toNat = 128 + code % 64) : Coded code [a, b]
  | three {a b c : UInt8} (hcode : 2048 ≤ code ∧ code < 65536) (ha : a.toNat = 224 + code / 4096)
      (hb : b.toNat = 128 + code / 64 % 64) (hc : c.toNat = 128 + code % 64) : Coded code [a, b, c]
  | four {a b c d : UInt8} (hcode : 65536 ≤ code) (ha : a.toNat = 240 + code / 262144)
      (hb : b.toNat = 128 + code / 4096 % 64) (hc : c.toNat = 128 + code / 64 % 64)
      (hd : d.toNat = 128 + code % 64) : Coded code [a, b, c, d]

theorem coded_utf8EncodeChar (c : Char) : Coded c.val.toNat (String.utf8EncodeChar c) := by
  have hmax : c.val.toNat < 1114112 := by
    rcases c.valid with h | h <;> omega
  simp only [String.utf8EncodeChar]
  split
  · apply Coded.one <;> (try simp only [UInt8.toNat_ofNat']) <;> omega
  · split
    · apply Coded.two <;> (try simp only [UInt8.toNat_ofNat']) <;> omega
    · split
      · apply Coded.three <;> (try simp only [UInt8.toNat_ofNat']) <;> omega
      · apply Coded.four <;> (try simp only [UInt8.toNat_ofNat']) <;> omega

theorem Coded.ne_nil {v : Nat} {as : Bytes} (h : Coded v as) : as ≠ [] := by
  cases h <;> simp

/-- One case for each two lengths: the lead octets differ, or the digits decide. -/
theorem Coded.lt {v w : Nat} {as bs : Bytes} (ha : Coded v as) (hb : Coded w bs) (h : v < w)
    (xs ys : Bytes) : as ++ xs < bs ++ ys := by
  cases ha <;> cases hb <;>
    simp only [List.cons_append, List.nil_append, List.cons_lt_cons_iff, UInt8.lt_iff_toNat_lt,
      ← UInt8.toNat_inj] <;> omega

theorem flatMap_utf8EncodeChar_lt {cs ds : List Char} (h : cs < ds) :
    cs.flatMap String.utf8EncodeChar < ds.flatMap String.utf8EncodeChar := by
  induction h with
  | @nil d ds =>
    obtain ⟨b, bs, hb⟩ := List.exists_cons_of_ne_nil (coded_utf8EncodeChar d).ne_nil
    rw [List.flatMap_nil, List.flatMap_cons, hb]
    exact List.nil_lt_cons _ _
  | @rel c cs d ds hcd =>
    rw [List.flatMap_cons, List.flatMap_cons]
    exact (coded_utf8EncodeChar c).lt (coded_utf8EncodeChar d) hcd _ _
  | @cons c cs ds _ ih =>
    rw [List.flatMap_cons, List.flatMap_cons]
    exact List.append_left_lt ih

theorem utf8_lt_utf8 {a b : String} (h : a < b) : utf8 a < utf8 b := by
  rw [utf8_eq_flatMap, utf8_eq_flatMap]
  exact flatMap_utf8EncodeChar_lt (String.lt_iff.mp h)

/-- The order of texts is that of their octets. -/
theorem utf8_le_iff {a b : String} : utf8 a ≤ utf8 b ↔ a ≤ b := by
  constructor
  · intro hle
    rw [← String.not_lt]
    intro hlt
    exact List.not_lt.mpr hle (utf8_lt_utf8 hlt)
  · intro hle
    by_cases hlt : a < b
    · exact List.le_of_lt (utf8_lt_utf8 hlt)
    · rw [String.le_antisymm hle (String.not_lt.mp hlt)]
      exact List.le_refl _

end Text
end HttpCache
