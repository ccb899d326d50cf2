import Mathlib.Data.List.Forall2
import HttpCache.Json.Writer
import HttpCache.Proofs.Json.Spaced

/-!
# HttpCache.Proofs.Json.Meaning

What a JSON text says, whoever reads it.

* `Tree.value?` — the value that a tree stands for, if its strings spell texts and its numbers are
  integers.
* `Shape` — the first octet of a value tells what kind of value it is (`tokens_start`).
* `Coincide` — two runs of tokens begin at one place of one text. Then their items coincide
  (`coincide_separated`), and if both are values, they are the same one (`value?_eq`).
* `Means` — a text is JSON, and every tree whose text it is stands for one value.

Spellings and blanks may differ, and so may trees with one text in the capitals of digits that have
none; but not in what they stand for.
-/

namespace HttpCache
namespace Json

open Ascii

/-! ## Values -/

namespace Numeral

/-- The integer in front of the point. -/
def integer (n : Numeral) : Int :=
  if n.negative then -(digitsValue n.whole.octets : Int) else digitsValue n.whole.octets

/-- The integer that a number without fraction and exponent is. -/
def int? (n : Numeral) : Option Int :=
  match n.fraction, n.exponent with
  | none, none => some n.integer
  | _, _ => none

end Numeral

namespace Tree

mutual

def value? : Tree → Option Value
  | null => some .null
  | bool b => some (.bool b)
  | number n => n.int?.map .number
  | text ps => ps.text?.map .text
  | list items => (itemValues? items).map .list
  | object members => (memberValues? members).map .map

def itemValues? : List Tree → Option (List Value)
  | [] => some []
  | item :: items => do
    let first ← item.value?
    let others ← itemValues? items
    pure (first :: others)

def memberValues? : List (Spelling × Tree) → Option (List (Value × Value))
  | [] => some []
  | (name, value) :: members => do
    let name ← name.text?
    let first ← value.value?
    let others ← memberValues? members
    pure ((.text name, first) :: others)

end

end Tree

/-! ## Kinds of values -/

inductive Shape where
  | null
  | bool (b : Bool)
  | number
  | text
  | list
  | object
  deriving DecidableEq

/-- The kind of value that starts with an octet. -/
def Shape.ofOctet? (b : UInt8) : Option Shape :=
  if b = 110 then some .null
  else if b = 116 then some (.bool true)
  else if b = 102 then some (.bool false)
  else if b = doubleQuote then some .text
  else if b = leftBracket then some .list
  else if b = leftBrace then some .object
  else if b = minus || isDigit b then some .number
  else none

theorem ofOctet?_of_isDigit (b : UInt8) : isDigit b = true → Shape.ofOctet? b = some .number :=
  Text.forall_octet (p := fun b => isDigit b = true → Shape.ofOctet? b = some .number)
    (by decide +kernel) b

def Tree.shape : Tree → Shape
  | null => .null
  | bool b => .bool b
  | number _ => .number
  | text _ => .text
  | list _ => .list
  | object _ => .object

theorem tokens_start (tree : Tree) :
    ∃ b token rest, tree.tokens = (b :: token) :: rest ∧ isBlank b = false ∧
      Shape.ofOctet? b = some tree.shape := by
  cases tree with
  | null => exact ⟨_, _, _, rfl, rfl, rfl⟩
  | bool b => cases b <;> exact ⟨_, _, _, rfl, rfl, rfl⟩
  | number n =>
    cases hn : n.negative with
    | true =>
      rw [Tree.tokens, Numeral.octets, hn]
      exact ⟨_, _, _, rfl, rfl, rfl⟩
    | false =>
      obtain ⟨d, rest, hcons, hd⟩ := unsigned_eq_cons n
      rw [Tree.tokens, Numeral.octets, hn, if_neg Bool.false_ne_true, hcons]
      exact ⟨_, _, _, rfl, isBlank_of_isDigit hd, ofOctet?_of_isDigit d hd⟩
  | text ps => exact ⟨_, _, _, rfl, rfl, rfl⟩
  | list items => exact ⟨_, _, _, rfl, rfl, rfl⟩
  | object members => exact ⟨_, _, _, rfl, rfl, rfl⟩

/-! ## Tokens of one text -/

/-- Two runs of tokens begin at one place of one text, and neither goes on behind its end. -/
def Coincide (tokens tokens' : List Bytes) : Prop :=
  ∃ (s : Bytes) (more more' : List Bytes), Delimited more ∧ Delimited more' ∧
    Spaced (tokens ++ more) s ∧ Spaced (tokens' ++ more') s

section Tokens

variable {frame : Frame} {tokens tokens' more more' : List Bytes} {s : Bytes}

/-- Items that begin at one place end at one place. -/
theorem Entered.end_eq (h : Entered frame tokens) (h' : Entered frame tokens')
    (hd : Delimited more) (hd' : Delimited more') (hs : Spaced (tokens ++ more) s)
    (hs' : Spaced (tokens' ++ more') s) : ∃ t, Spaced more t ∧ Spaced more' t := by
  obtain ⟨v, t, hv, hpasses, ht⟩ := h more s hd hs
  obtain ⟨v', t', hv', hpasses', ht'⟩ := h' more' s hd' hs'
  rw [hv] at hv'
  cases hv'
  rw [← hpasses.unique hpasses'] at ht'
  exact ⟨t, ht, ht'⟩

/-- The place behind what stands in front of an item. -/
def afterLead (first : Bool) (s : Bytes) : Bytes := if first then s else (skipBlanks s).tail

theorem Spaced.afterLead {first : Bool} (hs : Spaced (lead first ++ tokens) s) :
    Spaced tokens (afterLead first s) := by
  cases first with
  | true => exact hs
  | false =>
    obtain ⟨t, ht, hskip⟩ := Spaced.skipBlanks_eq hs rfl
    rw [Json.afterLead, hskip]
    exact ht

theorem head?_close (hs : Spaced ([frame.close] :: more) s) :
    (skipBlanks s).head? = some frame.close := by
  have hclose : isBlank frame.close = false := by cases frame <;> rfl
  obtain ⟨t, -, hskip⟩ := hs.skipBlanks_eq hclose
  rw [hskip, List.head?_cons]

theorem head?_ne_close {first : Bool} (h : Entered frame tokens) (hd : Delimited more)
    (hs : Spaced (lead first ++ (tokens ++ more)) s) :
    (skipBlanks s).head? ≠ some frame.close := by
  cases first with
  | true =>
    obtain ⟨v, t, hv, hpasses, -⟩ := h more s hd hs
    obtain ⟨b, rest, hb, hne⟩ := ne_close_of_entered hv hpasses
    rw [hb, List.head?_cons]
    exact fun heq => hne (Option.some.inj heq)
  | false =>
    obtain ⟨t, -, hskip⟩ := Spaced.skipBlanks_eq hs rfl
    rw [hskip, List.head?_cons]
    cases frame <;> decide

end Tokens

/-- By induction on the items of both: the bracket at the end is no item, and an item ends where
the other one ends. -/
theorem coincide_separated {frame : Frame} {items items' : List (List Bytes)}
    (h : ∀ item ∈ items, Entered frame item) (h' : ∀ item ∈ items', Entered frame item)
    {first : Bool} {more more' : List Bytes} {s : Bytes}
    (hs : Spaced (separated first items ++ [frame.close] :: more) s)
    (hs' : Spaced (separated first items' ++ [frame.close] :: more') s) :
    List.Forall₂ Coincide items items' := by
  induction items generalizing items' first s with
  | nil =>
    cases items' with
    | nil => exact .nil
    | cons item' items' =>
      rw [separated, List.append_assoc, List.append_assoc] at hs'
      exact absurd (head?_close hs) (head?_ne_close (h' item' List.mem_cons_self)
        (delimited_separated frame items' more') hs')
  | cons item items ih =>
    rw [separated, List.append_assoc, List.append_assoc] at hs
    have hentered := h item List.mem_cons_self
    have hd := delimited_separated frame items more
    cases items' with
    | nil => exact absurd (head?_close hs') (head?_ne_close hentered hd hs)
    | cons item' items' =>
      rw [separated, List.append_assoc, List.append_assoc] at hs'
      have hentered' := h' item' List.mem_cons_self
      have hd' := delimited_separated frame items' more'
      obtain ⟨t, ht, ht'⟩ := hentered.end_eq hentered' hd hd' hs.afterLead hs'.afterLead
      exact .cons ⟨_, _, _, hd, hd', hs.afterLead, hs'.afterLead⟩
        (ih (fun i hi => h i (List.mem_cons_of_mem item hi))
          (fun i hi => h' i (List.mem_cons_of_mem item' hi)) ht ht')

theorem coincide_bracketed {frame : Frame} {items items' : List (List Bytes)}
    (h : ∀ item ∈ items, Entered frame item) (h' : ∀ item ∈ items', Entered frame item)
    (hc : Coincide (bracketed frame items) (bracketed frame items')) :
    List.Forall₂ Coincide items items' := by
  obtain ⟨s, more, more', -, -, hs, hs'⟩ := hc
  have hopening : isBlank frame.opening = false := by cases frame <;> rfl
  rw [bracketed, intercalate_eq_separated, List.cons_append, List.append_assoc] at hs hs'
  obtain ⟨u, hu, hskip⟩ := hs.skipBlanks_eq hopening
  obtain ⟨u', hu', hskip'⟩ := hs'.skipBlanks_eq hopening
  rw [hskip] at hskip'
  cases hskip'
  exact coincide_separated h h' hu hu'

/-! ## Leaves -/

theorem text?_of_octets_eq {ps ps' : Spelling} {t t' : Bytes}
    (h : ps.octets ++ doubleQuote :: t = ps'.octets ++ doubleQuote :: t') {text : String}
    (htext : ps.text? = some text) : ps'.text? = some text := by
  have hread := readText_octets htext t
  rw [h] at hread
  cases htext' : ps'.text? with
  | none =>
    obtain ⟨e, he⟩ := readText_of_text?_eq_none htext' t'
    rw [he] at hread
    cases hread
  | some text' =>
    rw [readText_octets htext' t'] at hread
    cases hread
    rfl

theorem text?_eq {ps ps' : Spelling} {t t' : Bytes}
    (h : ps.octets ++ doubleQuote :: t = ps'.octets ++ doubleQuote :: t') :
    ps.text? = ps'.text? :=
  Option.ext fun _ => ⟨text?_of_octets_eq h, text?_of_octets_eq h.symm⟩

section Numerals

variable {n n' : Numeral} {t t' : Bytes}

theorem Numeral.int?_eq (n : Numeral) :
    n.int? =
      if n.fractionOctets ++ n.exponentOctets = [] then some n.integer else none := by
  obtain ⟨negative, whole, fraction, exponent⟩ := n
  cases fraction with
  | some digits => rfl
  | none =>
    cases exponent with
    | some e => rfl
    | none => rfl

theorem negative_eq (h : n.octets ++ t = n'.octets ++ t') : n.negative = n'.negative := by
  have hhead : ∀ n : Numeral, ∀ t, (n.octets ++ t).head? = some minus ↔ n.negative = true := by
    intro n t
    obtain ⟨d, rest, hcons, hd⟩ := unsigned_eq_cons n
    rw [Numeral.octets]
    cases n.negative with
    | true => simp
    | false => simp [hcons, ne_minus_of_isDigit hd]
  rw [Bool.eq_iff_iff, ← hhead n t, ← hhead n' t', h]

theorem unsigned_append_eq (h : n.octets ++ t = n'.octets ++ t') :
    n.unsigned ++ t = n'.unsigned ++ t' := by
  have hnegative := negative_eq h
  rw [Numeral.octets, Numeral.octets, ← hnegative] at h
  cases hn : n.negative with
  | true =>
    rw [hn] at h
    exact (List.cons.inj h).2
  | false =>
    rw [hn] at h
    exact h

theorem int?_eq (ht : EndsNumber t) (ht' : EndsNumber t') (h : n.octets ++ t = n'.octets ++ t') :
    n.int? = n'.int? := by
  have hunsigned := unsigned_append_eq h
  -- both numbers end at one place, and so do the digits in front of the point
  have hend := skipNumber_unsigned n ht
  rw [hunsigned, skipNumber_unsigned n' ht'] at hend
  cases hend
  have hwhole := readWhole_octets .invalidNumber n.whole (endsDigits_fraction n ht)
  have hwhole' := readWhole_octets .invalidNumber n'.whole (endsDigits_fraction n' ht')
  simp only [Numeral.unsigned, List.append_assoc] at hunsigned
  rw [hunsigned, hwhole', Except.ok.injEq, Prod.mk.injEq] at hwhole
  obtain ⟨hdigits, hrest⟩ := hwhole
  rw [← List.append_assoc, ← List.append_assoc, List.append_cancel_right_eq] at hrest
  have hinteger : n.integer = n'.integer := by
    rw [Numeral.integer, Numeral.integer, negative_eq h, hdigits]
  rw [Numeral.int?_eq, Numeral.int?_eq, hinteger, hrest]

end Numerals

/-! ## Trees -/

theorem shape_eq {tree tree' : Tree} (h : Coincide tree.tokens tree'.tokens) :
    tree.shape = tree'.shape := by
  obtain ⟨s, more, more', -, -, hs, hs'⟩ := h
  obtain ⟨b, token, rest, htokens, hb, hshape⟩ := tokens_start tree
  obtain ⟨b', token', rest', htokens', hb', hshape'⟩ := tokens_start tree'
  rw [htokens] at hs
  rw [htokens'] at hs'
  obtain ⟨t, -, hskip⟩ := hs.skipBlanks_eq hb
  obtain ⟨t', -, hskip'⟩ := hs'.skipBlanks_eq hb'
  rw [hskip] at hskip'
  rw [(List.cons.inj hskip').1, hshape'] at hshape
  exact (Option.some.inj hshape).symm

theorem coincide_text {ps ps' : Spelling} {more more' : List Bytes}
    {s : Bytes} (hs : Spaced (ps.token :: more) s) (hs' : Spaced (ps'.token :: more') s) :
    ps.text? = ps'.text? ∧ ∃ t, Spaced more t ∧ Spaced more' t := by
  obtain ⟨t, ht, hskip⟩ := hs.skipBlanks_text
  obtain ⟨t', ht', hskip'⟩ := hs'.skipBlanks_text
  rw [hskip] at hskip'
  have hoctets := (List.cons.inj hskip').2
  have hend := skipString_octets ps t
  rw [hoctets, skipString_octets] at hend
  cases hend
  exact ⟨text?_eq hoctets, t, ht, ht'⟩

theorem coincide_number {n n' : Numeral} (h : Coincide [n.octets] [n'.octets]) :
    n.int? = n'.int? := by
  obtain ⟨s, more, more', hd, hd', hs, hs'⟩ := h
  have hcons : ∀ n : Numeral, ∃ b rest, n.octets = b :: rest ∧ isBlank b = false := by
    intro n
    obtain ⟨b, token, rest, htokens, hb, -⟩ := tokens_start (.number n)
    exact ⟨b, token, (List.cons.inj htokens).1, hb⟩
  obtain ⟨b, token, hoctets, hb⟩ := hcons n
  obtain ⟨b', token', hoctets', hb'⟩ := hcons n'
  rw [List.singleton_append, hoctets] at hs
  rw [List.singleton_append, hoctets'] at hs'
  obtain ⟨t, ht, hskip⟩ := hs.skipBlanks_eq hb
  obtain ⟨t', ht', hskip'⟩ := hs'.skipBlanks_eq hb'
  refine int?_eq (ht.endsNumber hd) (ht'.endsNumber hd') ?_
  rw [hoctets, hoctets', List.cons_append, List.cons_append, ← hskip, hskip']

theorem coincide_member {name name' : Spelling} {tokens tokens' : List Bytes}
    (h : Coincide (name.token :: [colon] :: tokens) (name'.token :: [colon] :: tokens')) :
    name.text? = name'.text? ∧ Coincide tokens tokens' := by
  obtain ⟨s, more, more', hd, hd', hs, hs'⟩ := h
  obtain ⟨hname, t, ht, ht'⟩ := coincide_text hs hs'
  obtain ⟨u, hu, hcolon⟩ := ht.skipBlanks_eq rfl
  obtain ⟨u', hu', hcolon'⟩ := ht'.skipBlanks_eq rfl
  rw [hcolon] at hcolon'
  cases hcolon'
  exact ⟨hname, u, more, more', hd, hd', hu, hu'⟩

mutual

/-- By induction on the tree. The first octet tells which constructor the other tree has. -/
theorem value?_eq (tree tree' : Tree) (h : Coincide tree.tokens tree'.tokens) :
    tree.value? = tree'.value? := by
  have hshape := shape_eq h
  cases tree with
  | null =>
    cases tree' with
    | null => rfl
    | _ => cases hshape
  | bool b =>
    cases tree' with
    | bool b' => cases hshape; rfl
    | _ => cases hshape
  | number n =>
    cases tree' with
    | number n' => rw [Tree.value?, Tree.value?, coincide_number h]
    | _ => cases hshape
  | text ps =>
    cases tree' with
    | text ps' =>
      obtain ⟨s, more, more', -, -, hs, hs'⟩ := h
      rw [Tree.value?, Tree.value?, (coincide_text hs hs').1]
    | _ => cases hshape
  | list items =>
    cases tree' with
    | list items' =>
      rw [Tree.value?, Tree.value?, itemValues?_eq items items'
        (coincide_bracketed (entered_itemTokens items) (entered_itemTokens items') h)]
    | _ => cases hshape
  | object members =>
    cases tree' with
    | object members' =>
      rw [Tree.value?, Tree.value?, memberValues?_eq members members'
        (coincide_bracketed (entered_memberTokens members) (entered_memberTokens members') h)]
    | _ => cases hshape

theorem itemValues?_eq (items items' : List Tree)
    (h : List.Forall₂ Coincide (Tree.itemTokens items) (Tree.itemTokens items')) :
    Tree.itemValues? items = Tree.itemValues? items' := by
  cases items with
  | nil =>
    cases items' with
    | nil => rfl
    | cons item' items' => cases h
  | cons item items =>
    cases items' with
    | nil => cases h
    | cons item' items' =>
      cases h with
      | cons hitem hitems =>
        rw [Tree.itemValues?, Tree.itemValues?, value?_eq item item' hitem,
          itemValues?_eq items items' hitems]

theorem memberValues?_eq (members members' : List (Spelling × Tree))
    (h : List.Forall₂ Coincide (Tree.memberTokens members) (Tree.memberTokens members')) :
    Tree.memberValues? members = Tree.memberValues? members' := by
  cases members with
  | nil =>
    cases members' with
    | nil => rfl
    | cons member' members' => cases h
  | cons member members =>
    obtain ⟨name, value⟩ := member
    cases members' with
    | nil => cases h
    | cons member' members' =>
      obtain ⟨name', value'⟩ := member'
      cases h with
      | cons hmember hmembers =>
        obtain ⟨hname, hvalue⟩ := coincide_member hmember
        rw [Tree.memberValues?, Tree.memberValues?, hname, value?_eq value value' hvalue,
          memberValues?_eq members members' hmembers]

end

/-! ## Whole texts -/

/-- The text is JSON, and can only be read as this value. -/
structure Means (data : Bytes) (v : Value) : Prop where
  wellFormed : ∃ tree : Tree, Spaced tree.tokens data
  unique : ∀ tree : Tree, Spaced tree.tokens data → tree.value? = some v

/-- The value of one tree is the value of every tree with the same text. -/
theorem means_of_spaced {tree : Tree} {data : Bytes} {v : Value} (h : Spaced tree.tokens data)
    (hv : tree.value? = some v) : Means data v where
  wellFormed := ⟨tree, h⟩
  unique tree' h' := by
    have hend : Delimited [] := nofun
    rw [← hv]
    refine value?_eq tree' tree ⟨data, [], [], hend, hend, ?_, ?_⟩
    · rwa [List.append_nil]
    · rwa [List.append_nil]

end Json
end HttpCache
