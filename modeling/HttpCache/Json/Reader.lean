import HttpCache.Json.Skip

/-!
# HttpCache.Json.Reader

Readers for values of a wanted shape. Each skips blanks, reads one value and returns it with the
octets that follow.

* `readIntegerIn`, `readTextValue` — an integer of a range; a text.
* `nextItem`, `closeList` — stepping through a list.
* `nextKey`, `readColon`, `closeObject` — stepping through an object.
* `readPairs` — a list of pairs of texts.
* `document` — a whole input that holds one value and blanks.

A value of another shape is read far enough to say what it is; a text that is no JSON there is
reported as such.
-/

namespace HttpCache
namespace Json

open Ascii

def literalFault (found : Found) (expected : String) (literal s : Bytes) : Fault :=
  match readLiteral literal s with
  | .error e => e
  | .ok rest => ⟨.wrongType found expected, rest⟩

def numberFault (negative : Bool) (expected : String) (s : Bytes) : Fault :=
  match readNumber negative s with
  | .error e => e
  | .ok (.integer i, rest) => ⟨.wrongType (.integer i) expected, rest⟩
  | .ok (.float x, rest) => ⟨.wrongType (.float x) expected, rest⟩

def mismatch (expected : String) (b : UInt8) (rest : Bytes) : Fault :=
  if b = 110 then literalFault .null expected [117, 108, 108] rest
  else if b = 116 then literalFault (.bool true) expected [114, 117, 101] rest
  else if b = 102 then literalFault (.bool false) expected [97, 108, 115, 101] rest
  else if b = minus then numberFault true expected rest
  else if isDigit b then numberFault false expected (b :: rest)
  else if b = doubleQuote then
    match readText rest with
    | .error e => e
    | .ok (text, rest) => ⟨.wrongType (.text text) expected, rest⟩
  else if b = leftBracket then ⟨.wrongType .list expected, b :: rest⟩
  else if b = leftBrace then ⟨.wrongType .object expected, b :: rest⟩
  else ⟨.expectedValue, rest⟩

/-- The integer that a number is, if it lies in `low..high`. -/
def integerOf (low high : Int) (expected : String) :
    Except Fault (Number × Bytes) → Except Fault (Int × Bytes)
  | .error e => .error e
  | .ok (.float x, rest) => .error ⟨.wrongType (.float x) expected, rest⟩
  | .ok (.integer i, rest) =>
    if low ≤ i && i ≤ high then .ok (i, rest) else .error ⟨.outOfRange i expected, rest⟩

def readIntegerIn (low high : Int) (expected : String) (s : Bytes) : Except Fault (Int × Bytes) :=
  match skipBlanks s with
  | [] => .error ⟨.endOf .value, []⟩
  | b :: rest =>
    if b = minus then integerOf low high expected (readNumber true rest)
    else if isDigit b then integerOf low high expected (readNumber false (b :: rest))
    else .error (mismatch expected b rest)

def readTextValue (s : Bytes) : Except Fault (String × Bytes) :=
  match skipBlanks s with
  | [] => .error ⟨.endOf .value, []⟩
  | b :: rest => if b = doubleQuote then readText rest else .error (mismatch "a string" b rest)

/-- Looks for the next item of a list: `true` and its start, or `false` and the bracket. -/
def nextItem (first : Bool) (s : Bytes) : Except Fault (Bool × Bytes) :=
  match skipBlanks s with
  | [] => .error ⟨.endOf .list, []⟩
  | b :: rest =>
    if b = rightBracket then .ok (false, b :: rest)
    else if first then .ok (true, b :: rest)
    else if b = comma then
      match skipBlanks rest with
      | [] => .error ⟨.endOf .value, []⟩
      | c :: tail =>
        if c = rightBracket then .error ⟨.trailingComma, tail⟩ else .ok (true, c :: tail)
    else .error ⟨.expectedListCommaOrEnd, rest⟩

def closeList (s : Bytes) : Except Fault Bytes :=
  match skipBlanks s with
  | [] => .error ⟨.endOf .list, []⟩
  | b :: rest =>
    if b = rightBracket then .ok rest
    else if b = comma then
      if (skipBlanks rest).head? = some rightBracket then
        .error ⟨.trailingComma, (skipBlanks rest).tail⟩
      else .error ⟨.trailingCharacters, (skipBlanks rest).tail⟩
    else .error ⟨.trailingCharacters, rest⟩

/-- Where a fault of a whole list is noticed: after the attempt to close the list. -/
def afterList (s : Bytes) : Bytes :=
  match skipBlanks s with
  | [] => []
  | b :: rest =>
    if b = rightBracket then rest else if b = comma then skipBlanks rest else b :: rest

def afterObject (s : Bytes) : Bytes :=
  match skipBlanks s with
  | [] => []
  | b :: rest => if b = rightBrace then rest else b :: rest

/-- Reads the name of the next member; `none` and the rest after the brace at the end. -/
def nextKey (first : Bool) (s : Bytes) : Except Fault (Option String × Bytes) :=
  match skipBlanks s with
  | [] => .error ⟨.endOf .object, []⟩
  | b :: rest =>
    if b = rightBrace then .ok (none, rest)
    else if first then
      if b = doubleQuote then
        match readText rest with
        | .error e => .error e
        | .ok (name, rest) => .ok (some name, rest)
      else .error ⟨.keyNotText, rest⟩
    else if b = comma then
      match skipBlanks rest with
      | [] => .error ⟨.endOf .value, []⟩
      | c :: tail =>
        if c = doubleQuote then
          match readText tail with
          | .error e => .error e
          | .ok (name, rest) => .ok (some name, rest)
        else if c = rightBrace then .error ⟨.trailingComma, tail⟩
        else .error ⟨.keyNotText, tail⟩
    else .error ⟨.expectedObjectCommaOrEnd, rest⟩

def readColon (s : Bytes) : Except Fault Bytes :=
  match skipBlanks s with
  | [] => .error ⟨.endOf .object, []⟩
  | b :: rest => if b = colon then .ok rest else .error ⟨.expectedColon, rest⟩

def pairShape : String := "a tuple of size 2"

def readPairItems (s : Bytes) : Except Fault ((String × String) × Bytes) :=
  match nextItem true s with
  | .error e => .error e
  | .ok (false, s) => .error ⟨.wrongLength 0 pairShape, afterList s⟩
  | .ok (true, s) =>
    match readTextValue s with
    | .error e => .error e
    | .ok (name, s) =>
      match nextItem false s with
      | .error e => .error e
      | .ok (false, s) => .error ⟨.wrongLength 1 pairShape, afterList s⟩
      | .ok (true, s) =>
        match readTextValue s with
        | .error e => .error e
        | .ok (value, s) =>
          match closeList s with
          | .error e => .error e
          | .ok rest => .ok ((name, value), rest)

def readPair (s : Bytes) : Except Fault ((String × String) × Bytes) :=
  match skipBlanks s with
  | [] => .error ⟨.endOf .value, []⟩
  | b :: rest =>
    if b = leftBracket then readPairItems rest else .error (mismatch pairShape b rest)

/-! ## What is left over is an end of the input -/

theorem integerOf_eq_ok {low high : Int} {expected : String} {i : Int} {t : Bytes}
    {r : Except Fault (Number × Bytes)} (h : integerOf low high expected r = .ok (i, t)) :
    r = .ok (.integer i, t) := by
  unfold integerOf at h
  split at h
  · cases h
  · cases h
  · split at h
    · cases h; rfl
    · cases h

theorem suffix_of_skipBlanks {b : UInt8} {s rest : Bytes} (h : skipBlanks s = b :: rest) :
    rest <:+ s :=
  (List.suffix_cons _ _).trans (h ▸ skipBlanks_suffix s)

theorem readIntegerIn_suffix {low high : Int} {expected : String} {s t : Bytes} {i : Int}
    (h : readIntegerIn low high expected s = .ok (i, t)) : t <:+ s := by
  unfold readIntegerIn at h
  split at h
  · cases h
  · rename_i hs
    split at h
    · exact (readNumber_suffix (integerOf_eq_ok h)).trans (suffix_of_skipBlanks hs)
    · split at h
      · exact (readNumber_suffix (integerOf_eq_ok h)).trans (hs ▸ skipBlanks_suffix s)
      · cases h

theorem readTextValue_suffix {s t : Bytes} {text : String}
    (h : readTextValue s = .ok (text, t)) : t <:+ s := by
  unfold readTextValue at h
  split at h
  · cases h
  · rename_i hs
    split at h
    · exact (readText_suffix h).trans (suffix_of_skipBlanks hs)
    · cases h

theorem nextItem_suffix {first more : Bool} {s t : Bytes} (h : nextItem first s = .ok (more, t)) :
    t <:+ s := by
  unfold nextItem at h
  split at h
  · cases h
  · rename_i hs
    split at h
    · cases h; exact hs ▸ skipBlanks_suffix s
    · split at h
      · cases h; exact hs ▸ skipBlanks_suffix s
      · split at h
        · split at h
          · cases h
          · rename_i hc
            split at h
            · cases h
            · cases h
              exact (hc ▸ skipBlanks_suffix _).trans (suffix_of_skipBlanks hs)
        · cases h

theorem closeList_suffix {s t : Bytes} (h : closeList s = .ok t) : t <:+ s := by
  unfold closeList at h
  split at h
  · cases h
  · rename_i hs
    split at h
    · cases h; exact suffix_of_skipBlanks hs
    · split at h
      · split at h <;> cases h
      · cases h

theorem nextKey_lt {first : Bool} {s t : Bytes} {key : Option String}
    (h : nextKey first s = .ok (key, t)) : t.length < s.length := by
  unfold nextKey at h
  split at h
  · cases h
  · rename_i hs
    split at h
    · cases h; exact length_lt_of_skipBlanks hs List.suffix_rfl
    · split at h
      · split at h
        · split at h
          · cases h
          · rename_i hr
            cases h
            exact length_lt_of_skipBlanks hs (readText_suffix hr)
        · cases h
      · split at h
        · split at h
          · cases h
          · rename_i hc
            split at h
            · split at h
              · cases h
              · rename_i hr
                cases h
                exact length_lt_of_skipBlanks hs
                  ((readText_suffix hr).trans (suffix_of_skipBlanks hc))
            · split at h <;> cases h
        · cases h

theorem readColon_suffix {s t : Bytes} (h : readColon s = .ok t) : t <:+ s := by
  unfold readColon at h
  split at h
  · cases h
  · rename_i hs
    split at h
    · cases h; exact suffix_of_skipBlanks hs
    · cases h

theorem readPairItems_suffix {s t : Bytes} {pair : String × String}
    (h : readPairItems s = .ok (pair, t)) : t <:+ s := by
  unfold readPairItems at h
  split at h
  · cases h
  · cases h
  · rename_i h₁
    split at h
    · cases h
    · rename_i h₂
      split at h
      · cases h
      · cases h
      · rename_i h₃
        split at h
        · cases h
        · rename_i h₄
          split at h
          · cases h
          · rename_i h₅
            cases h
            exact (closeList_suffix h₅).trans ((readTextValue_suffix h₄).trans
              ((nextItem_suffix h₃).trans ((readTextValue_suffix h₂).trans (nextItem_suffix h₁))))

theorem readPair_lt {s t : Bytes} {pair : String × String} (h : readPair s = .ok (pair, t)) :
    t.length < s.length := by
  unfold readPair at h
  split at h
  · cases h
  · rename_i hs
    split at h
    · exact length_lt_of_skipBlanks hs (readPairItems_suffix h)
    · cases h

/-! ## Lists of pairs and whole inputs -/

def readPairsFrom (first : Bool) (s : Bytes) : Except Fault (List (String × String) × Bytes) :=
  match _hn : nextItem first s with
  | .error e => .error e
  | .ok (false, s) => .ok ([], s.tail)
  | .ok (true, s) =>
    match _hp : readPair s with
    | .error e => .error e
    | .ok (pair, rest) =>
      match readPairsFrom false rest with
      | .error e => .error e
      | .ok (pairs, rest) => .ok (pair :: pairs, rest)
  termination_by s.length
  decreasing_by
    have h₁ := (nextItem_suffix _hn).length_le
    have h₂ := readPair_lt _hp
    omega

def readPairs (s : Bytes) : Except Fault (List (String × String) × Bytes) :=
  match skipBlanks s with
  | [] => .error ⟨.endOf .value, []⟩
  | b :: rest =>
    if b = leftBracket then readPairsFrom true rest else .error (mismatch "a sequence" b rest)

theorem readPairsFrom_le {first : Bool} {s t : Bytes} {pairs : List (String × String)}
    (h : readPairsFrom first s = .ok (pairs, t)) : t.length ≤ s.length := by
  fun_induction readPairsFrom first s generalizing pairs with
  | case1 => cases h
  | case2 first s' s hn =>
    cases h
    have := (nextItem_suffix hn).length_le
    simp
    omega
  | case3 => cases h
  | case4 => cases h
  | case5 first s' s hn pair rest hp pairs' rest' hr ih =>
    cases h
    have h₁ := (nextItem_suffix hn).length_le
    have h₂ := readPair_lt hp
    have h₃ := ih hr
    omega

theorem readPairs_le {s t : Bytes} {pairs : List (String × String)}
    (h : readPairs s = .ok (pairs, t)) : t.length ≤ s.length := by
  unfold readPairs at h
  split at h
  · cases h
  · rename_i hs
    split at h
    · have h₁ := readPairsFrom_le h
      have h₂ := (suffix_of_skipBlanks hs).length_le
      omega
    · cases h

/-- Reads an input that holds one value and nothing after it but blanks. -/
def document {α : Type} (read : Bytes → Except Fault (α × Bytes)) (input : Bytes) :
    Except Error α :=
  match read input with
  | .error e => .error (e.locate input)
  | .ok (value, rest) =>
    match skipBlanks rest with
    | [] => .ok value
    | _ :: tail => .error (Fault.locate ⟨.trailingCharacters, tail⟩ input)

end Json
end HttpCache
