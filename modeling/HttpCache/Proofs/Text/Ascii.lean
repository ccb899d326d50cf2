import HttpCache.Text.Utf8

/-!
# HttpCache.Proofs.Text.Ascii

ASCII octets are the UTF-8 octets of a text, one octet for each character.

* `mem_utf8EncodeChar`, `not_mem_utf8` — an ASCII octet is a character, never part of another one.
* `ofAscii` — the text of ASCII octets.
* `utf8_ofAscii`, `ofUtf8?_ascii` — writing and reading that text.
* `utf8_lossy_ascii` — the replacing decoder replaces nothing in it.
-/

namespace HttpCache
namespace Text

/-- What holds of the 256 octets holds of every octet. -/
theorem forall_octet {p : UInt8 → Prop} (h : ∀ n, n < 256 → p (UInt8.ofNat n)) (b : UInt8) :
    p b := by
  have hb := h b.toNat b.toNat_lt
  rwa [UInt8.ofNat_toNat] at hb

theorem utf8_ofList (cs : List Char) :
    utf8 (String.ofList cs) = cs.flatMap String.utf8EncodeChar := by
  simp [utf8, List.utf8Encode]

theorem utf8EncodeChar_ascii : ∀ n, n < 128 →
    String.utf8EncodeChar (Char.ofNat n) = [UInt8.ofNat n] := by
  decide

theorem utf8_eq_flatMap (s : String) : utf8 s = s.toList.flatMap String.utf8EncodeChar := by
  rw [← utf8_ofList, String.ofList_toList]

/-- The octets of a character that is not ASCII are not ASCII. -/
theorem mem_utf8EncodeChar {c : Char} {b : UInt8} (h : b ∈ String.utf8EncodeChar c) :
    128 ≤ b.toNat ∨ b.toNat = c.toNat := by
  simp only [String.utf8EncodeChar] at h
  split at h
  · rename_i hc
    have hv : c.val.toNat < 256 := by omega
    rw [List.mem_singleton] at h
    rw [h, UInt8.toNat_ofNat']
    exact .inr (Nat.mod_eq_of_lt hv)
  · left
    split at h
    · simp only [List.mem_cons, List.not_mem_nil, or_false] at h
      rcases h with rfl | rfl <;> simp only [UInt8.toNat_ofNat'] <;> omega
    · split at h
      · simp only [List.mem_cons, List.not_mem_nil, or_false] at h
        rcases h with rfl | rfl | rfl <;> simp only [UInt8.toNat_ofNat'] <;> omega
      · simp only [List.mem_cons, List.not_mem_nil, or_false] at h
        rcases h with rfl | rfl | rfl | rfl <;> simp only [UInt8.toNat_ofNat'] <;> omega

theorem not_mem_utf8 {s : String} {c : Char} (h : c ∉ s.toList) {b : UInt8}
    (hb : b.toNat = c.toNat) (hc : c.toNat < 128) : b ∉ utf8 s := by
  intro hmem
  rw [utf8_eq_flatMap, List.mem_flatMap] at hmem
  obtain ⟨d, hd, hmem⟩ := hmem
  rcases mem_utf8EncodeChar hmem with hlarge | heq
  · omega
  · have hcd : c = d := by rw [← Char.ofNat_toNat c, ← hb, heq, Char.ofNat_toNat]
    exact h (hcd ▸ hd)

def ofAscii (bs : Bytes) : String := String.ofList (bs.map fun b => Char.ofNat b.toNat)

theorem utf8_ofAscii {bs : Bytes} (h : ∀ b ∈ bs, b < 128) : utf8 (ofAscii bs) = bs := by
  rw [ofAscii, utf8_ofList, List.flatMap_map]
  induction bs with
  | nil => rfl
  | cons b bs ih =>
    have hb : b.toNat < 128 := h b List.mem_cons_self
    rw [List.flatMap_cons, utf8EncodeChar_ascii _ hb, UInt8.ofNat_toNat,
      ih fun x hx => h x (List.mem_cons_of_mem b hx)]
    rfl

theorem ofUtf8?_ascii {bs : Bytes} (h : ∀ b ∈ bs, b < 128) : ofUtf8? bs = some (ofAscii bs) := by
  have hs := ofUtf8?_utf8 (ofAscii bs)
  rwa [utf8_ofAscii h] at hs

theorem utf8_lossy_ascii {bs : Bytes} (h : ∀ b ∈ bs, b < 128) : utf8 (Utf8.lossy bs) = bs := by
  rw [Utf8.lossy, ofUtf8?_ascii h]
  exact utf8_ofAscii h

end Text
end HttpCache
