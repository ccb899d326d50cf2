import HttpCache.Proofs.Json.Lenient

/-!
# HttpCache.Proofs.Json.Written

What the writer writes is JSON without blanks.

* `spaced_flatten` — tokens one right after the other are a spaced text.
* `token_ofString`, `text?_ofString` — the writer's form of a text is one of its spellings.
* `flatten_list`, `flatten_object` — lists and objects, item by item.
-/

namespace HttpCache
namespace Json

open Ascii

theorem Spaced.token_cons {token text : Bytes} {tokens : List Bytes} (h : Spaced tokens text) :
    Spaced (token :: tokens) (token ++ text) := by
  have hcons : Spaced (token :: tokens) ([] ++ (token ++ text)) := .cons nofun h
  exact hcons

theorem spaced_flatten (tokens : List Bytes) : Spaced tokens tokens.flatten := by
  induction tokens with
  | nil => exact .nil nofun
  | cons token tokens ih => exact ih.token_cons

theorem spaced_flatMap {b : UInt8} (hb : isBlank b = true) (tokens : List Bytes) :
    Spaced tokens (tokens.flatMap (b :: ·)) := by
  induction tokens with
  | nil => exact .nil nofun
  | cons token tokens ih =>
    have hcons : Spaced (token :: tokens) ([b] ++ (token ++ tokens.flatMap (b :: ·))) :=
      .cons (fun c hc => List.mem_singleton.mp hc ▸ hb) ih
    exact hcons

/-! ## Texts -/

/-- The character that a piece stands for, if it is more than half of one. -/
def Piece.char? : Piece → Option Char
  | plain c _ => some c
  | escape e => some e.meaning
  | code c =>
    if isLowSurrogate c.value || isHighSurrogate c.value then none else some (Char.ofNat c.value)

theorem chars?_cons {p : Piece} {c : Char} (h : p.char? = some c) (ps : Spelling) :
    Spelling.chars? (p :: ps) = (Spelling.chars? ps).map (c :: ·) := by
  cases p with
  | plain d hd => cases h; rfl
  | escape e => cases h; rfl
  | code d =>
    simp only [Piece.char?] at h
    split at h
    · cases h
    · rename_i hsurrogate
      cases h
      simp only [Bool.or_eq_true, not_or, Bool.not_eq_true] at hsurrogate
      rw [Spelling.chars?.eq_def]
      simp [hsurrogate]

/-- The piece that is written for a control. -/
def controlPiece (n : Nat) : Piece :=
  if n = 8 then .escape .backspace
  else if n = 9 then .escape .tab
  else if n = 10 then .escape .lineFeed
  else if n = 12 then .escape .formFeed
  else if n = 13 then .escape .carriageReturn
  else .code (.ofNat n)

theorem octets_controlPiece : ∀ n, n < 32 →
    (controlPiece n).octets = escape (String.utf8EncodeChar (Char.ofNat n)) := by
  decide

theorem char?_controlPiece : ∀ n, n < 32 → (controlPiece n).char? = some (Char.ofNat n) := by
  decide

theorem escapeByte_plain {b : UInt8} (h : IsPlain b) : escapeByte b = [b] := by
  obtain ⟨hquote, hbackslash, hcontrol⟩ := h
  have hne : ∀ c : UInt8, c < 32 → b ≠ c := by
    rintro c hc rfl
    exact hcontrol hc
  simp [escapeByte, hquote, hbackslash, hcontrol, hne 8 (by decide), hne tab (by decide),
    hne lf (by decide), hne 12 (by decide), hne cr (by decide)]

theorem escape_run {bs : Bytes} (h : ∀ b ∈ bs, IsPlain b) : escape bs = bs := by
  induction bs with
  | nil => rfl
  | cons b bs ih =>
    rw [escape, List.flatMap_cons, escapeByte_plain (h b List.mem_cons_self), ← escape,
      ih fun c hc => h c (List.mem_cons_of_mem b hc)]
    rfl

/-- The piece that is written for a character. -/
def Piece.ofChar (c : Char) : Piece :=
  if h : 32 ≤ c.toNat ∧ c ≠ '"' ∧ c ≠ '\\' then .plain c h
  else if c = '"' then .escape .doubleQuote
  else if c = '\\' then .escape .backslash
  else controlPiece c.toNat

theorem ofChar_spec (c : Char) :
    (Piece.ofChar c).octets = escape (String.utf8EncodeChar c) ∧
      (Piece.ofChar c).char? = some c := by
  unfold Piece.ofChar
  split
  · rename_i hplain
    exact ⟨(escape_run fun _ => isPlain_of_mem hplain).symm, rfl⟩
  · rename_i hplain
    split
    · rename_i hc
      subst hc
      exact ⟨by decide, rfl⟩
    · rename_i hquote
      split
      · rename_i hc
        subst hc
        exact ⟨by decide, rfl⟩
      · rename_i hbackslash
        have hcontrol : c.toNat < 32 :=
          Nat.lt_of_not_le fun hle => hplain ⟨hle, hquote, hbackslash⟩
        rw [octets_controlPiece _ hcontrol, char?_controlPiece _ hcontrol, Char.ofNat_toNat]
        exact ⟨rfl, rfl⟩

/-- The spelling that is written for a text. -/
def Spelling.ofString (s : String) : Spelling := s.toList.map Piece.ofChar

theorem octets_ofChars (cs : List Char) :
    Spelling.octets (cs.map Piece.ofChar) = escape (cs.flatMap String.utf8EncodeChar) := by
  induction cs with
  | nil => rfl
  | cons c cs ih =>
    rw [List.map_cons, Spelling.octets, List.flatMap_cons, ← Spelling.octets, ih,
      (ofChar_spec c).1, List.flatMap_cons, escape, escape, escape, List.flatMap_append]

theorem token_ofString (s : String) : (Spelling.ofString s).token = quoted s := by
  rw [Spelling.token, Spelling.ofString, octets_ofChars, ← Text.utf8_eq_flatMap]
  rfl

theorem chars?_ofChars (cs : List Char) : Spelling.chars? (cs.map Piece.ofChar) = some cs := by
  induction cs with
  | nil => rfl
  | cons c cs ih => rw [List.map_cons, chars?_cons (ofChar_spec c).2, ih, Option.map_some]

theorem text?_ofString (s : String) : (Spelling.ofString s).text? = some s := by
  rw [Spelling.text?, Spelling.ofString, chars?_ofChars, Option.map_some, String.ofList_toList]

/-! ## Lists and objects -/

theorem flatten_intercalate (items : List (List Bytes)) :
    ([[comma]].intercalate items).flatten = [comma].intercalate (items.map List.flatten) := by
  induction items with
  | nil => rfl
  | cons item items ih =>
    cases items with
    | nil => simp
    | cons next items =>
      rw [List.intercalate_cons_cons, List.flatten_append, List.flatten_append, ih]
      simp [List.intercalate_cons_cons]

theorem flatten_bracketed (frame : Frame) (items : List (List Bytes)) :
    (bracketed frame items).flatten =
      frame.opening :: [comma].intercalate (items.map List.flatten) ++ [frame.close] := by
  simp [bracketed, flatten_intercalate]

theorem itemTokens_eq (items : List Tree) : Tree.itemTokens items = items.map Tree.tokens := by
  induction items with
  | nil => rfl
  | cons item items ih => rw [Tree.itemTokens, ih, List.map_cons]

theorem flatten_list (items : List Tree) :
    (Tree.list items).tokens.flatten = array (items.map fun item => item.tokens.flatten) := by
  rw [Tree.tokens, flatten_bracketed, itemTokens_eq, List.map_map]
  rfl

theorem flatten_memberTokens (members : List (String × Tree)) :
    (Tree.memberTokens (members.map fun m => (.ofString m.1, m.2))).map List.flatten =
      members.map fun m => member (m.1, m.2.tokens.flatten) := by
  induction members with
  | nil => rfl
  | cons m members ih =>
    rw [List.map_cons, Tree.memberTokens, List.map_cons, ih, List.map_cons, member]
    simp [token_ofString]

theorem flatten_object (members : List (String × Tree)) :
    (Tree.object (members.map fun m => (.ofString m.1, m.2))).tokens.flatten =
      object (members.map fun m => (m.1, m.2.tokens.flatten)) := by
  rw [Tree.tokens, flatten_bracketed, flatten_memberTokens, object, List.map_map]
  rfl

/-! ## Pairs of texts -/

def pair (p : String × String) : Bytes := array [quoted p.1, quoted p.2]

def Tree.ofPair (p : String × String) : Tree :=
  .list [.text (.ofString p.1), .text (.ofString p.2)]

theorem spellsPair_ofPair (p : String × String) : (Tree.ofPair p).SpellsPair p :=
  ⟨_, _, rfl, text?_ofString p.1, text?_ofString p.2⟩

theorem flatten_ofPair (p : String × String) : (Tree.ofPair p).tokens.flatten = pair p := by
  rw [Tree.ofPair, flatten_list]
  simp [Tree.tokens, token_ofString, pair]

end Json
end HttpCache
