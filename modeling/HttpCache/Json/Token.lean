import HttpCache.Json.Fault
import HttpCache.Text.Ascii

/-!
# HttpCache.Json.Token

The leaves of JSON: blanks, the three literals and strings.

* `skipBlanks`, `readLiteral` — blanks between tokens; the rest of `null`, `true` and `false`.
* `readString` — the octets that a string stands for, starting after its opening quote.
* `readText` — the same as a text, which has to be UTF-8.
* `skipString` — passes over a string whose contents do not matter: surrogates need not be
  paired and octets need not be UTF-8.

What a reader leaves over is an end of its input (`readString_suffix`, `skipString_suffix`).
-/

namespace HttpCache
namespace Json

open Ascii

def isBlank (b : UInt8) : Bool := b == space || b == tab || b == lf || b == cr

def skipBlanks (s : Bytes) : Bytes := s.dropWhile isBlank

/-- Reads the octets of a literal after its first one. -/
def readLiteral : Bytes → Bytes → Except Fault Bytes
  | [], s => .ok s
  | _ :: _, [] => .error ⟨.endOf .value, []⟩
  | e :: es, b :: rest =>
    if b = e then readLiteral es rest else .error ⟨.expectedIdent, rest⟩

def escaped? (b : UInt8) : Option UInt8 :=
  if b = doubleQuote || b = backslash || b = slash then some b
  else if b = 98 then some 8
  else if b = 102 then some 12
  else if b = 110 then some lf
  else if b = 114 then some cr
  else if b = 116 then some tab
  else none

def hexValue4? (a b c d : UInt8) : Option Nat :=
  match hexValue? a, hexValue? b, hexValue? c, hexValue? d with
  | some a, some b, some c, some d => some (((a * 16 + b) * 16 + c) * 16 + d)
  | _, _, _, _ => none

def isHighSurrogate (n : Nat) : Bool := 0xD800 ≤ n && n ≤ 0xDBFF

def isLowSurrogate (n : Nat) : Bool := 0xDC00 ≤ n && n ≤ 0xDFFF

def codePoint (n : Nat) : Bytes := String.utf8EncodeChar (Char.ofNat n)

def joinSurrogates (high low : Nat) : Nat := (high - 0xD800) * 1024 + (low - 0xDC00) + 0x10000

def prepend (front : Bytes) : Except Fault (Bytes × Bytes) → Except Fault (Bytes × Bytes)
  | .error e => .error e
  | .ok (content, rest) => .ok (front ++ content, rest)

/-- The octets of a string after its opening quote, and what follows its closing quote. -/
def readString : Bytes → Except Fault (Bytes × Bytes)
  | [] => .error ⟨.endOf .string, []⟩
  | b :: s =>
    if b = doubleQuote then .ok ([], s)
    else if b = backslash then
      match s with
      | [] => .error ⟨.endOf .string, []⟩
      | e :: s =>
        if e = 117 then
          match s with
          | h₁ :: h₂ :: h₃ :: h₄ :: s =>
            match hexValue4? h₁ h₂ h₃ h₄ with
            | none => .error ⟨.invalidEscape, s⟩
            | some n =>
              if isLowSurrogate n then .error ⟨.loneSurrogate, s⟩
              else if isHighSurrogate n then
                match s with
                | [] => .error ⟨.endOf .string, []⟩
                | c :: s =>
                  if c = backslash then
                    match s with
                    | [] => .error ⟨.endOf .string, []⟩
                    | u :: s =>
                      if u = 117 then
                        match s with
                        | l₁ :: l₂ :: l₃ :: l₄ :: s =>
                          match hexValue4? l₁ l₂ l₃ l₄ with
                          | none => .error ⟨.invalidEscape, s⟩
                          | some low =>
                            if isLowSurrogate low then
                              prepend (codePoint (joinSurrogates n low)) (readString s)
                            else .error ⟨.loneSurrogate, s⟩
                        | _ => .error ⟨.endOf .string, []⟩
                      else .error ⟨.unfinishedSurrogate, s⟩
                  else .error ⟨.unfinishedSurrogate, s⟩
              else prepend (codePoint n) (readString s)
          | _ => .error ⟨.endOf .string, []⟩
        else
          match escaped? e with
          | none => .error ⟨.invalidEscape, s⟩
          | some octet => prepend [octet] (readString s)
    else if b < 32 then .error ⟨.controlCharacter, s⟩
    else prepend [b] (readString s)

def readText (s : Bytes) : Except Fault (String × Bytes) :=
  match readString s with
  | .error e => .error e
  | .ok (content, rest) =>
    match Text.ofUtf8? content with
    | none => .error ⟨.invalidCodePoint, rest⟩
    | some text => .ok (text, rest)

def skipString : Bytes → Except Fault Bytes
  | [] => .error ⟨.endOf .string, []⟩
  | b :: s =>
    if b = doubleQuote then .ok s
    else if b = backslash then
      match s with
      | [] => .error ⟨.endOf .string, []⟩
      | e :: s =>
        if e = 117 then
          match s with
          | h₁ :: h₂ :: h₃ :: h₄ :: s =>
            match hexValue4? h₁ h₂ h₃ h₄ with
            | none => .error ⟨.invalidEscape, s⟩
            | some _ => skipString s
          | _ => .error ⟨.endOf .string, []⟩
        else
          match escaped? e with
          | none => .error ⟨.invalidEscape, s⟩
          | some _ => skipString s
    else if b < 32 then .error ⟨.controlCharacter, b :: s⟩
    else skipString s

/-! ## What is left over is an end of the input -/

theorem skipBlanks_suffix (s : Bytes) : skipBlanks s <:+ s := List.dropWhile_suffix _

theorem readLiteral_suffix {es s t : Bytes} (h : readLiteral es s = .ok t) : t <:+ s := by
  induction es generalizing s with
  | nil => cases h; exact List.suffix_rfl
  | cons e es ih =>
    cases s with
    | nil => cases h
    | cons b rest =>
      simp only [readLiteral] at h
      split at h
      · exact (ih h).trans (List.suffix_cons b rest)
      · cases h

theorem prepend_eq_ok {front content t : Bytes} {r : Except Fault (Bytes × Bytes)}
    (h : prepend front r = .ok (content, t)) :
    ∃ more, r = .ok (more, t) ∧ content = front ++ more := by
  cases r with
  | error e => cases h
  | ok p =>
    obtain ⟨more, rest⟩ := p
    cases h
    exact ⟨more, rfl, rfl⟩

theorem readString_suffix {s t content : Bytes} (h : readString s = .ok (content, t)) :
    t <:+ s := by
  fun_induction readString s generalizing content
  all_goals first
    | cases h; done
    | (cases h; exact List.suffix_cons _ _)
    | (rename_i ih
       obtain ⟨more, hr, _⟩ := prepend_eq_ok h
       exact (ih hr).trans (by simp [List.suffix_cons_iff]))

theorem skipString_suffix {s t : Bytes} (h : skipString s = .ok t) : t <:+ s := by
  fun_induction skipString s
  all_goals first
    | cases h; done
    | (cases h; exact List.suffix_cons _ _)
    | (rename_i ih
       exact (ih h).trans (by simp [List.suffix_cons_iff]))

theorem readText_suffix {s t : Bytes} {text : String} (h : readText s = .ok (text, t)) :
    t <:+ s := by
  unfold readText at h
  split at h
  · cases h
  · rename_i hr
    split at h
    · cases h
    · cases h; exact readString_suffix hr

end Json
end HttpCache
