import HttpCache.Text.Bytes

/-!
# HttpCache.Text.Ascii

The ASCII octets that the wire formats name, and classes of octets.

* `isDigit`, `isAlpha`, `hexValue?` — digits and letters.
* `isTokenByte` — the octets of a method or a header name.
* `isTargetByte`, `isFieldByte` — the octets of a request target and of a header value.
* `sameName` — equality of header names, which ignores the case of ASCII letters and of no
  other letter.
-/

namespace HttpCache
namespace Ascii

abbrev tab : UInt8 := 9
abbrev lf : UInt8 := 10
abbrev cr : UInt8 := 13
abbrev space : UInt8 := 32
abbrev doubleQuote : UInt8 := 34
abbrev percent : UInt8 := 37
abbrev ampersand : UInt8 := 38
abbrev plus : UInt8 := 43
abbrev comma : UInt8 := 44
abbrev minus : UInt8 := 45
abbrev dot : UInt8 := 46
abbrev slash : UInt8 := 47
abbrev zero : UInt8 := 48
abbrev colon : UInt8 := 58
abbrev equals : UInt8 := 61
abbrev leftBracket : UInt8 := 91
abbrev backslash : UInt8 := 92
abbrev rightBracket : UInt8 := 93
abbrev leftBrace : UInt8 := 123
abbrev rightBrace : UInt8 := 125

def isDigit (b : UInt8) : Bool := 48 ≤ b && b ≤ 57

def isAlpha (b : UInt8) : Bool := (65 ≤ b && b ≤ 90) || (97 ≤ b && b ≤ 122)

/-- The octets `A-Za-z0-9` and `!#$%&'*+-.^_` with the grave accent, the bar and the tilde. -/
def isTokenByte (b : UInt8) : Bool :=
  isAlpha b || isDigit b ||
    [33, 35, 36, 37, 38, 39, 42, 43, 45, 46, 94, 95, 96, 124, 126].contains b

/-- Every octet except the controls, the space and the delete character. -/
def isTargetByte (b : UInt8) : Bool := 33 ≤ b && b != 127

/-- Every octet except the delete character and the controls other than the tab. -/
def isFieldByte (b : UInt8) : Bool := b == tab || (32 ≤ b && b != 127)

def isBlank (b : UInt8) : Bool := b == space || b == tab

def hexValue? (b : UInt8) : Option Nat :=
  if 48 ≤ b && b ≤ 57 then some (b.toNat - 48)
  else if 65 ≤ b && b ≤ 70 then some (b.toNat - 55)
  else if 97 ≤ b && b ≤ 102 then some (b.toNat - 87)
  else none

/-- Names are equal up to the case of ASCII letters. -/
def sameName (a b : String) : Bool := a.toLower == b.toLower

theorem toList_toLower (s : String) : s.toLower.toList = s.toList.map Char.toLower :=
  String.toList_map

theorem sameName_eq (a b : String) :
    sameName a b = decide (a.toList.map Char.toLower = b.toList.map Char.toLower) := by
  rw [Bool.eq_iff_iff, decide_eq_true_iff, sameName, beq_iff_eq, ← String.toList_inj,
    toList_toLower, toList_toLower]

theorem sameName_refl (a : String) : sameName a a = true := by simp [sameName]

theorem sameName_comm (a b : String) : sameName a b = sameName b a := by
  simp only [sameName, Bool.beq_comm]

theorem sameName_trans {a b c : String} (h₁ : sameName a b = true) (h₂ : sameName b c = true) :
    sameName a c = true := by
  simp only [sameName, beq_iff_eq] at *
  exact h₁.trans h₂

end Ascii
end HttpCache
