import HttpCache.Proofs.Json.Grammar
import HttpCache.Proofs.Json.Skip

/-!
# HttpCache.Proofs.Json.Spelling

Strings and numbers are read and passed over in every way in which they may be written.

* `readText_octets` — a spelling is read as the text that it spells.
* `readText_of_text?_eq_none` — one that spells no text is refused.
* `skipString_octets`, `skipNumber_unsigned` — a string, and a number after its sign, are passed
  over whole.
-/

namespace HttpCache
namespace Json

open Ascii

/-! ## The pieces of a string -/

theorem hexValue?_octet (d : HexDigit) : hexValue? d.octet = some d.value.val := by
  have hall : ∀ (v : Fin 16) (capital : Bool),
      hexValue? (HexDigit.octet ⟨v, capital⟩) = some v.val := by decide
  exact hall d.value d.capital

theorem hexValue4?_octets (c : Code) :
    hexValue4? c.first.octet c.second.octet c.third.octet c.fourth.octet = some c.value := by
  simp only [hexValue4?, hexValue?_octet, Code.value]

theorem escaped?_letter (e : Escape) :
    ∃ octet, escaped? e.letter = some octet ∧ String.utf8EncodeChar e.meaning = [octet] := by
  cases e <;> exact ⟨_, rfl, rfl⟩

theorem letter_ne (e : Escape) : e.letter ≠ 117 := by
  cases e <;> decide

/-- An octet that stands for itself in a string. -/
def IsPlain (b : UInt8) : Prop := b ≠ doubleQuote ∧ b ≠ backslash ∧ ¬b < 32

theorem isPlain_of_mem {c : Char} (h : 32 ≤ c.toNat ∧ c ≠ '"' ∧ c ≠ '\\') {b : UInt8}
    (hb : b ∈ String.utf8EncodeChar c) : IsPlain b := by
  obtain ⟨hcontrol, hquote, hbackslash⟩ := h
  have hne : ∀ d : Char, c ≠ d → c.toNat ≠ d.toNat := by
    intro d hcd heq
    exact hcd (by rw [← Char.ofNat_toNat c, heq, Char.ofNat_toNat])
  have hquote : c.toNat ≠ 34 := hne '"' hquote
  have hbackslash : c.toNat ≠ 92 := hne '\\' hbackslash
  have hvalue := Text.mem_utf8EncodeChar hb
  refine ⟨?_, ?_, ?_⟩
  · rintro rfl
    have : doubleQuote.toNat = 34 := rfl
    omega
  · rintro rfl
    have : backslash.toNat = 92 := rfl
    omega
  · intro hlt
    have : b.toNat < 32 := hlt
    omega

theorem prepend_prepend (front more : Bytes) (r : Except Fault (Bytes × Bytes)) :
    prepend front (prepend more r) = prepend (front ++ more) r := by
  cases r with
  | error e => rfl
  | ok p => simp [prepend]

theorem prepend_nil (r : Except Fault (Bytes × Bytes)) : prepend [] r = r := by
  cases r <;> rfl

theorem readString_run {bs : Bytes} (h : ∀ b ∈ bs, IsPlain b) (s : Bytes) :
    readString (bs ++ s) = prepend bs (readString s) := by
  induction bs with
  | nil => exact (prepend_nil _).symm
  | cons b bs ih =>
    obtain ⟨hquote, hbackslash, hcontrol⟩ := h b List.mem_cons_self
    rw [List.cons_append, readString_plain hquote hbackslash hcontrol,
      ih fun x hx => h x (List.mem_cons_of_mem b hx), prepend_prepend]
    rfl

theorem skipString_run {bs : Bytes} (h : ∀ b ∈ bs, IsPlain b) (s : Bytes) :
    skipString (bs ++ s) = skipString s := by
  induction bs with
  | nil => rfl
  | cons b bs ih =>
    obtain ⟨hquote, hbackslash, hcontrol⟩ := h b List.mem_cons_self
    rw [List.cons_append, skipString_plain hquote hbackslash hcontrol,
      ih fun x hx => h x (List.mem_cons_of_mem b hx)]

theorem skipString_piece (p : Piece) (s : Bytes) : skipString (p.octets ++ s) = skipString s := by
  cases p with
  | plain c h => exact skipString_run (fun b => isPlain_of_mem h) s
  | escape e =>
    obtain ⟨octet, he, -⟩ := escaped?_letter e
    exact skipString_letter he s
  | code c => exact skipString_code (hexValue4?_octets c) s

theorem skipString_octets (ps : Spelling) (rest : Bytes) :
    skipString (ps.octets ++ doubleQuote :: rest) = .ok rest := by
  induction ps with
  | nil => exact skipString_quote rest
  | cons p ps ih =>
    rw [Spelling.octets, List.flatMap_cons, List.append_assoc, skipString_piece, ← Spelling.octets,
      ih]

/-! ## What is spelled -/

theorem readString_char {c : Char} (h : 32 ≤ c.toNat ∧ c ≠ '"' ∧ c ≠ '\\') (s : Bytes) :
    readString (String.utf8EncodeChar c ++ s) =
      prepend (String.utf8EncodeChar c) (readString s) :=
  readString_run (fun _ => isPlain_of_mem h) s

theorem octets_cons (p : Piece) (ps : Spelling) (s : Bytes) :
    Spelling.octets (p :: ps) ++ s = p.octets ++ (ps.octets ++ s) := by
  rw [Spelling.octets, List.flatMap_cons, List.append_assoc, Spelling.octets]

theorem codeOctets_append (c : Code) (s : Bytes) :
    (Piece.code c).octets ++ s =
      backslash :: 117 :: c.first.octet :: c.second.octet :: c.third.octet :: c.fourth.octet :: s :=
  rfl

theorem readString_octets {ps : Spelling} {cs : List Char} (h : ps.chars? = some cs)
    (rest : Bytes) :
    readString (ps.octets ++ doubleQuote :: rest) =
      .ok (cs.flatMap String.utf8EncodeChar, rest) := by
  fun_induction Spelling.chars? ps generalizing cs with
  | case1 =>
    cases h
    exact readString_quote rest
  | case2 c hc ps ih =>
    obtain ⟨cs, hcs, rfl⟩ := Option.map_eq_some_iff.mp h
    rw [octets_cons, Piece.octets, readString_char hc, ih hcs]
    rfl
  | case3 e ps ih =>
    obtain ⟨cs, hcs, rfl⟩ := Option.map_eq_some_iff.mp h
    obtain ⟨octet, he, hmeaning⟩ := escaped?_letter e
    rw [octets_cons, List.flatMap_cons, hmeaning]
    exact (readString_letter he _).trans (congrArg (prepend [octet]) (ih hcs))
  | case5 c hlow hhigh low ps hlow' ih =>
    obtain ⟨cs, hcs, rfl⟩ := Option.map_eq_some_iff.mp h
    rw [octets_cons, octets_cons, codeOctets_append, codeOctets_append,
      readString_surrogates (hexValue4?_octets c) (Bool.eq_false_iff.mpr hlow) hhigh
        (hexValue4?_octets low) hlow', ih hcs]
    rfl
  | case8 c ps hlow hhigh ih =>
    obtain ⟨cs, hcs, rfl⟩ := Option.map_eq_some_iff.mp h
    rw [octets_cons, codeOctets_append, readString_scalar (hexValue4?_octets c)
      (Bool.eq_false_iff.mpr hlow) (Bool.eq_false_iff.mpr hhigh), ih hcs]
    rfl
  | _ => cases h

/-- What follows the first surrogate of a pair, where it is not the second one. -/
theorem readString_high {c : Code} (hlow : isLowSurrogate c.value = false)
    (hhigh : isHighSurrogate c.value = true) {ps : Spelling}
    (h : ∀ low ps', ps = Piece.code low :: ps' → isLowSurrogate low.value = false)
    (rest : Bytes) :
    ∃ e, readString ((Piece.code c).octets ++ (ps.octets ++ doubleQuote :: rest)) = .error e := by
  rw [codeOctets_append]
  cases ps with
  | nil => exact ⟨_, readString_high_octet (hexValue4?_octets c) hlow hhigh (by decide) _⟩
  | cons p ps =>
    rw [octets_cons]
    cases p with
    | plain d hd =>
      obtain ⟨b, bs, hbs⟩ := List.exists_cons_of_ne_nil (String.utf8EncodeChar_ne_nil (c := d))
      have hplain : IsPlain b := isPlain_of_mem hd (by rw [hbs]; exact List.mem_cons_self)
      rw [Piece.octets, hbs]
      exact ⟨_, readString_high_octet (hexValue4?_octets c) hlow hhigh hplain.2.1 _⟩
    | escape e =>
      exact ⟨_, readString_high_escape (hexValue4?_octets c) hlow hhigh (letter_ne e) _⟩
    | code low =>
      exact ⟨_, readString_high_code (hexValue4?_octets c) hlow hhigh (hexValue4?_octets low)
        (h low ps rfl) _⟩

theorem readString_of_chars?_eq_none {ps : Spelling} (h : ps.chars? = none) (rest : Bytes) :
    ∃ e, readString (ps.octets ++ doubleQuote :: rest) = .error e := by
  fun_induction Spelling.chars? ps with
  | case1 => cases h
  | case2 c hc ps ih =>
    obtain ⟨e, he⟩ := ih (Option.map_eq_none_iff.mp h)
    exact ⟨e, by rw [octets_cons, Piece.octets, readString_char hc, he]; rfl⟩
  | case3 letter ps ih =>
    obtain ⟨e, he⟩ := ih (Option.map_eq_none_iff.mp h)
    obtain ⟨octet, hletter, -⟩ := escaped?_letter letter
    rw [octets_cons]
    exact ⟨e, (readString_letter hletter _).trans (congrArg (prepend [octet]) he)⟩
  | case4 c ps hlow =>
    rw [octets_cons, codeOctets_append]
    exact ⟨_, readString_low (hexValue4?_octets c) hlow _⟩
  | case5 c hlow hhigh low ps hlow' ih =>
    obtain ⟨e, he⟩ := ih (Option.map_eq_none_iff.mp h)
    rw [octets_cons, octets_cons, codeOctets_append, codeOctets_append,
      readString_surrogates (hexValue4?_octets c) (Bool.eq_false_iff.mpr hlow) hhigh
        (hexValue4?_octets low) hlow', he]
    exact ⟨e, rfl⟩
  | case6 c hlow hhigh low ps hlow' =>
    rw [octets_cons]
    refine readString_high (Bool.eq_false_iff.mpr hlow) hhigh (fun other ps' heq => ?_) rest
    cases heq
    exact Bool.eq_false_iff.mpr hlow'
  | case7 c ps hlow hhigh hnone =>
    rw [octets_cons]
    exact readString_high (Bool.eq_false_iff.mpr hlow) hhigh
      (fun low ps' heq => (hnone low ps' heq).elim) rest
  | case8 c ps hlow hhigh ih =>
    obtain ⟨e, he⟩ := ih (Option.map_eq_none_iff.mp h)
    rw [octets_cons, codeOctets_append, readString_scalar (hexValue4?_octets c)
      (Bool.eq_false_iff.mpr hlow) (Bool.eq_false_iff.mpr hhigh), he]
    exact ⟨e, rfl⟩

theorem readText_octets {ps : Spelling} {text : String} (h : ps.text? = some text)
    (rest : Bytes) : readText (ps.octets ++ doubleQuote :: rest) = .ok (text, rest) := by
  obtain ⟨cs, hcs, rfl⟩ := Option.map_eq_some_iff.mp h
  simp only [readText, readString_octets hcs, ← Text.utf8_ofList, Text.ofUtf8?_utf8]

theorem readText_of_text?_eq_none {ps : Spelling} (h : ps.text? = none) (rest : Bytes) :
    ∃ e, readText (ps.octets ++ doubleQuote :: rest) = .error e := by
  obtain ⟨e, he⟩ := readString_of_chars?_eq_none (Option.map_eq_none_iff.mp h) rest
  exact ⟨e, by simp only [readText, he]⟩

theorem token_append (ps : Spelling) (s : Bytes) :
    ps.token ++ s = doubleQuote :: (ps.octets ++ doubleQuote :: s) := by
  simp [Spelling.token]

/-! ## Numbers -/

theorem isDigit_digits (ds : List (Fin 10)) :
    ∀ b ∈ ds.map (fun n => decimalDigit n.val), isDigit b = true := by
  intro b hb
  obtain ⟨d, -, rfl⟩ := List.mem_map.mp hb
  exact isDigit_decimalDigit d.val d.isLt

theorem isDigit_octets (d : Digits) : ∀ b ∈ d.octets, isDigit b = true :=
  isDigit_digits (d.first :: d.others)

theorem readWhole_octets (atEnd : Cause) (w : Whole) {s : Bytes} (hs : EndsDigits s) :
    readWhole atEnd (w.octets ++ s) = .ok (w.octets, s) := by
  cases w with
  | zero =>
    cases s with
    | nil => rfl
    | cons b s => simp [readWhole, Whole.octets, hs b rfl]
  | counting first hfirst others =>
    have hrun := takeWhile_digits (isDigit_digits (first :: others)) hs
    have hne : decimalDigit first.val ≠ zero :=
      decimalDigit_ne_zero first.val first.isLt (Nat.pos_of_ne_zero (Fin.val_ne_of_ne hfirst))
    have hdigit := isDigit_decimalDigit first.val first.isLt
    rw [List.map_cons, List.cons_append] at hrun
    simp [readWhole, Whole.octets, hne, hdigit, hrun]

theorem readFraction_octets (atEnd : Cause) (d : Digits) {s : Bytes} (hs : EndsDigits s) :
    readFraction atEnd (dot :: (d.octets ++ s)) = .ok (some d.octets, s) := by
  have hrun := takeWhile_digits (isDigit_octets d) hs
  have hdigit := isDigit_decimalDigit d.first.val d.first.isLt
  rw [Digits.octets, List.cons_append] at hrun ⊢
  simp [readFraction, hdigit, hrun]

theorem readPower_octets (atEnd : Cause) (negative : Bool) (d : Digits) {s : Bytes}
    (hs : EndsDigits s) :
    readPower atEnd negative (d.octets ++ s) = .ok (some (negative, d.octets), s) := by
  have hrun := takeWhile_digits (isDigit_octets d) hs
  have hdigit := isDigit_decimalDigit d.first.val d.first.isLt
  rw [Digits.octets, List.cons_append] at hrun ⊢
  simp [readPower, hdigit, hrun]

section Numerals

variable (atEnd : Cause) (n : Numeral) {s : Bytes}

theorem endsWhole_exponent (hs : EndsNumber s) : EndsWhole (n.exponentOctets ++ s) := by
  intro b hb
  cases he : n.exponent with
  | none =>
    rw [Numeral.exponentOctets, he] at hb
    exact hs.endsWhole b hb
  | some e =>
    rw [Numeral.exponentOctets, he] at hb
    cases hb
    cases e.capital <;> decide

theorem endsDigits_fraction (hs : EndsNumber s) :
    EndsDigits (n.fractionOctets ++ (n.exponentOctets ++ s)) := by
  intro b hb
  cases hf : n.fraction with
  | none =>
    rw [Numeral.fractionOctets, hf] at hb
    exact (endsWhole_exponent n hs b hb).1
  | some digits =>
    rw [Numeral.fractionOctets, hf] at hb
    cases hb
    rfl

theorem afterSign_octets (e : Exponent) (s : Bytes) :
    ∃ negative, afterSign (e.signOctets ++ (e.digits.octets ++ s)) =
      (negative, e.digits.octets ++ s) := by
  obtain ⟨capital, sign, digits⟩ := e
  cases sign with
  | none =>
    have hdigit := isDigit_decimalDigit digits.first.val digits.first.isLt
    have hminus := ne_minus_of_isDigit hdigit
    have hplus : decimalDigit digits.first.val ≠ plus := by
      intro heq
      rw [heq] at hdigit
      cases hdigit
    exact ⟨false, by simp [Exponent.signOctets, Digits.octets, afterSign, hminus, hplus]⟩
  | some negative => cases negative <;> exact ⟨_, rfl⟩

theorem readExponent_octets (hs : EndsNumber s) :
    ∃ e, readExponent atEnd (n.exponentOctets ++ s) = .ok (e, s) := by
  cases he : n.exponent with
  | none =>
    rw [Numeral.exponentOctets, he]
    exact ⟨none, readExponent_end atEnd hs⟩
  | some e =>
    obtain ⟨negative, hsign⟩ := afterSign_octets e s
    have hmark : ((if e.capital then (69 : UInt8) else 101) = 101 ||
        (if e.capital then (69 : UInt8) else 101) = 69) = true := by cases e.capital <;> rfl
    refine ⟨some (negative, e.digits.octets), ?_⟩
    simp only [Numeral.exponentOctets, he, Exponent.octets, List.cons_append, List.append_assoc]
    rw [readExponent_mark atEnd hmark, hsign]
    exact readPower_octets atEnd negative e.digits hs.endsDigits

theorem readFraction_numeral (hs : EndsNumber s) :
    ∃ f, readFraction atEnd (n.fractionOctets ++ (n.exponentOctets ++ s)) =
      .ok (f, n.exponentOctets ++ s) := by
  have hexponent := endsWhole_exponent n hs
  cases hf : n.fraction with
  | none =>
    rw [Numeral.fractionOctets, hf]
    exact ⟨none, readFraction_none atEnd hexponent⟩
  | some digits =>
    rw [Numeral.fractionOctets, hf]
    exact ⟨_, readFraction_octets atEnd digits fun b hb => (hexponent b hb).1⟩

theorem skipNumber_unsigned (hs : EndsNumber s) : skipNumber (n.unsigned ++ s) = .ok s := by
  obtain ⟨f, hf⟩ := readFraction_numeral .invalidNumber n hs
  obtain ⟨e, he⟩ := readExponent_octets .invalidNumber n hs
  have hw := readWhole_octets .invalidNumber n.whole (endsDigits_fraction n hs)
  simp only [skipNumber, readNumberText, Numeral.unsigned, List.append_assoc, hw, hf, he]

theorem whole_eq_cons (w : Whole) : ∃ d rest, w.octets = d :: rest ∧ isDigit d = true := by
  cases w with
  | zero => exact ⟨zero, [], rfl, rfl⟩
  | counting first _ others =>
    exact ⟨decimalDigit first.val, _, rfl, isDigit_decimalDigit first.val first.isLt⟩

theorem unsigned_eq_cons : ∃ d rest, n.unsigned = d :: rest ∧ isDigit d = true := by
  obtain ⟨d, rest, hwhole, hd⟩ := whole_eq_cons n.whole
  refine ⟨d, rest ++ (n.fractionOctets ++ n.exponentOctets), ?_, hd⟩
  rw [Numeral.unsigned, hwhole, List.append_assoc, List.cons_append]

end Numerals

end Json
end HttpCache
