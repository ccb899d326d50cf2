import HttpCache.Json.Token
import HttpCache.Json.Writer
import HttpCache.Proofs.Text.Ascii

/-!
# HttpCache.Proofs.Json.Token

What a string is read as, from the front: an octet that stands for itself, a letter behind a
backslash, or a code of four digits. The codes of the surrogates stand for a character in pairs
only.
-/

namespace HttpCache
namespace Json

open Ascii

theorem hexValue?_hexDigit : ∀ n, n < 16 → hexValue? (hexDigit n) = some n := by decide

theorem backslash_ne_doubleQuote : backslash ≠ doubleQuote := by decide

theorem skipBlanks_cons {b : UInt8} (h : isBlank b = false) (s : Bytes) :
    skipBlanks (b :: s) = b :: s := by
  simp [skipBlanks, h]

/-- A one-letter escape stands for one octet. -/
theorem readString_letter {e octet : UInt8} (he : escaped? e = some octet) (s : Bytes) :
    readString (backslash :: e :: s) = prepend [octet] (readString s) := by
  have hu : e ≠ 117 := by
    rintro rfl
    cases he
  rw [readString.eq_def]
  simp [backslash_ne_doubleQuote, hu, he]

theorem readString_quote (s : Bytes) : readString (doubleQuote :: s) = .ok ([], s) := by
  rw [readString.eq_def]
  simp

section Codes

variable {a b c d : UInt8} {n : Nat}

/-- A code outside of the surrogates stands for one character. -/
theorem readString_scalar (hn : hexValue4? a b c d = some n) (hlow : isLowSurrogate n = false)
    (hhigh : isHighSurrogate n = false) (s : Bytes) :
    readString (backslash :: 117 :: a :: b :: c :: d :: s) =
      prepend (codePoint n) (readString s) := by
  rw [readString.eq_def]
  simp [backslash_ne_doubleQuote, hn, hlow, hhigh]

/-- Two surrogates stand for one character. -/
theorem readString_surrogates {a' b' c' d' : UInt8} {low : Nat}
    (hn : hexValue4? a b c d = some n) (hlow : isLowSurrogate n = false)
    (hhigh : isHighSurrogate n = true) (hn' : hexValue4? a' b' c' d' = some low)
    (hlow' : isLowSurrogate low = true) (s : Bytes) :
    readString (backslash :: 117 :: a :: b :: c :: d ::
        backslash :: 117 :: a' :: b' :: c' :: d' :: s) =
      prepend (codePoint (joinSurrogates n low)) (readString s) := by
  rw [readString.eq_def]
  simp [backslash_ne_doubleQuote, hn, hlow, hhigh, hn', hlow']

/-- The second surrogate of a pair cannot come first. -/
theorem readString_low (hn : hexValue4? a b c d = some n) (hlow : isLowSurrogate n = true)
    (s : Bytes) :
    readString (backslash :: 117 :: a :: b :: c :: d :: s) = .error ⟨.loneSurrogate, s⟩ := by
  rw [readString.eq_def]
  simp [backslash_ne_doubleQuote, hn, hlow]

/-- The first surrogate of a pair cannot stand in front of another code. -/
theorem readString_high_code {a' b' c' d' : UInt8} {low : Nat}
    (hn : hexValue4? a b c d = some n) (hlow : isLowSurrogate n = false)
    (hhigh : isHighSurrogate n = true) (hn' : hexValue4? a' b' c' d' = some low)
    (hlow' : isLowSurrogate low = false) (s : Bytes) :
    readString (backslash :: 117 :: a :: b :: c :: d ::
        backslash :: 117 :: a' :: b' :: c' :: d' :: s) = .error ⟨.loneSurrogate, s⟩ := by
  rw [readString.eq_def]
  simp [backslash_ne_doubleQuote, hn, hlow, hhigh, hn', hlow']

theorem readString_high_octet {b' : UInt8} (hn : hexValue4? a b c d = some n)
    (hlow : isLowSurrogate n = false) (hhigh : isHighSurrogate n = true) (hb : b' ≠ backslash)
    (s : Bytes) :
    readString (backslash :: 117 :: a :: b :: c :: d :: b' :: s) =
      .error ⟨.unfinishedSurrogate, s⟩ := by
  rw [readString.eq_def]
  simp [backslash_ne_doubleQuote, hn, hlow, hhigh, hb]

theorem readString_high_escape {e : UInt8} (hn : hexValue4? a b c d = some n)
    (hlow : isLowSurrogate n = false) (hhigh : isHighSurrogate n = true) (he : e ≠ 117)
    (s : Bytes) :
    readString (backslash :: 117 :: a :: b :: c :: d :: backslash :: e :: s) =
      .error ⟨.unfinishedSurrogate, s⟩ := by
  rw [readString.eq_def]
  simp [backslash_ne_doubleQuote, hn, hlow, hhigh, he]

end Codes

/-- An octet that is no control, no quote and no backslash stands for itself. -/
theorem readString_plain {b : UInt8} (hq : b ≠ doubleQuote) (hs : b ≠ backslash) (hc : ¬b < 32)
    (s : Bytes) : readString (b :: s) = prepend [b] (readString s) := by
  rw [readString.eq_def]
  simp [hq, hs, hc]

/-! ## Strings that are passed over -/

theorem skipString_quote (s : Bytes) : skipString (doubleQuote :: s) = .ok s := by
  rw [skipString.eq_def]
  simp

theorem skipString_letter {e octet : UInt8} (he : escaped? e = some octet) (s : Bytes) :
    skipString (backslash :: e :: s) = skipString s := by
  have hu : e ≠ 117 := by
    rintro rfl
    cases he
  rw [skipString.eq_def]
  simp [backslash_ne_doubleQuote, hu, he]

theorem skipString_code {a b c d : UInt8} {n : Nat} (hn : hexValue4? a b c d = some n)
    (s : Bytes) : skipString (backslash :: 117 :: a :: b :: c :: d :: s) = skipString s := by
  rw [skipString.eq_def]
  simp [backslash_ne_doubleQuote, hn]

theorem skipString_plain {b : UInt8} (hq : b ≠ doubleQuote) (hs : b ≠ backslash) (hc : ¬b < 32)
    (s : Bytes) : skipString (b :: s) = skipString s := by
  rw [skipString.eq_def]
  simp [hq, hs, hc]

end Json
end HttpCache
