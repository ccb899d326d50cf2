import HttpCache.Proofs.Message.Headers
import Mathlib.Algebra.GroupWithZero.Nat

/-!
# HttpCache.Proofs.Message.Multimap

Headers as a map from folded names to lists of values, over any sequence of calls.

* `Multimap` — the map. Its names have no spelling and its lists no common order.
* `Change` — an insertion, a replacement or a removal, made on either side.
* `Represents` — both sides have the same values of each name; every change keeps that and is
  answered alike (`Represents.change`, `Represents.changes`).
* `filter_changes` — fields that no change names stay as they are, in their order.
* `Lists`, `lists_names` — the names of the fields, as their first fields spell and order them.
* `size_eq_sum` — each field counts under one of these names.
-/

namespace HttpCache

/-- A name in the spelling that stands for all of its spellings. -/
def Ascii.folded (name : String) : String := name.toLower

/-- The values under each folded name. -/
structure Multimap where
  values : String → List String

namespace Multimap

def empty : Multimap := ⟨fun _ => []⟩

/-- Other values for one name. -/
def put (m : Multimap) (name : String) (values : List String) : Multimap :=
  ⟨fun key => if key = Ascii.folded name then values else m.values key⟩

def getAll (m : Multimap) (name : String) : List String := m.values (Ascii.folded name)

def ofFields (fields : List (String × String)) : Multimap :=
  fields.foldl (fun m field => m.put field.1 (m.getAll field.1 ++ [field.2])) empty

end Multimap

/-- A change of some headers. -/
inductive Change where
  | insert (name value : String)
  | set (name value : String)
  | remove (name : String)
  deriving DecidableEq, Repr

namespace Change

def name : Change → String
  | insert name _ | set name _ | remove name => name

/-- A field has another name than the one that is changed. -/
def spares (c : Change) (field : String × String) : Bool := !Ascii.sameName c.name field.1

/-- A change of headers, and the answer to a removal. -/
def onHeaders (c : Change) (h : Headers) : Headers × Option Bool :=
  match c with
  | insert name value => (h.insert name value, none)
  | set name value => (h.set name value, none)
  | remove name => (h.remove name, some (h.removes name))

/-- The change of a map: a value more, this value alone, or none. A removal is answered by whether
there was one. -/
def onMultimap (c : Change) (m : Multimap) : Multimap × Option Bool :=
  match c with
  | insert name value => (m.put name (m.getAll name ++ [value]), none)
  | set name value => (m.put name [value], none)
  | remove name => (m.put name [], some (m.getAll name != []))

/-- Changes one after the other, with their answers. -/
def all {α : Type} (on : Change → α → α × Option Bool) : List Change → α → α × List (Option Bool)
  | [], a => (a, [])
  | c :: cs, a => ((all on cs (on c a).1).1, (on c a).2 :: (all on cs (on c a).1).2)

end Change

namespace Headers

open Ascii

/-! ## The values of a name -/

/-- The same values of each name, in whatever spelling. -/
def Represents (h : Headers) (m : Multimap) : Prop := ∀ name, h.getAll name = m.getAll name

theorem folded_eq_iff {a b : String} : folded a = folded b ↔ sameName a b = true := by
  simp [folded, sameName]

theorem getAll_put (m : Multimap) (name other : String) (values : List String) :
    (m.put name values).getAll other = if sameName name other then values else m.getAll other := by
  have hiff : folded other = folded name ↔ sameName name other = true := by
    rw [eq_comm]
    exact folded_eq_iff
  simp only [Multimap.put, Multimap.getAll, hiff]

theorem removes_eq (h : Headers) (name : String) : h.removes name = (h.getAll name != []) := by
  have hlt : h.removes name = true ↔ ∃ field ∈ h.fields, sameName field.1 name = true := by
    rw [removes, remove, decide_eq_true_iff, List.length_filter_lt_length_iff_exists]
    simp only [Bool.not_eq_true', Bool.not_eq_false]
  have hne : (h.getAll name != []) = true ↔ ∃ field ∈ h.fields, sameName field.1 name = true := by
    simp [getAll, List.filter_eq_nil_iff]
  rw [Bool.eq_iff_iff, hlt, hne]

variable {h : Headers} {m : Multimap}

/-- A change keeps the values of each name equal, and is answered alike. -/
theorem Represents.change (hm : h.Represents m) (c : Change) :
    (c.onHeaders h).1.Represents (c.onMultimap m).1 ∧ (c.onHeaders h).2 = (c.onMultimap m).2 := by
  cases c with
  | insert name value =>
    refine ⟨?_, rfl⟩
    intro other
    simp only [Change.onHeaders, Change.onMultimap, getAll_insert, getAll_put, hm other, ← hm name]
    by_cases hs : sameName name other
    · rw [if_pos hs, if_pos hs, getAll_congr h hs, hm other]
    · rw [if_neg hs, if_neg hs, List.append_nil]
  | set name value =>
    refine ⟨?_, rfl⟩
    intro other
    simp only [Change.onHeaders, Change.onMultimap, getAll_set, getAll_put, hm other]
  | remove name =>
    constructor
    · intro other
      simp only [Change.onHeaders, Change.onMultimap, getAll_remove, getAll_put, hm other]
    · simp only [Change.onHeaders, Change.onMultimap, removes_eq, hm name]

theorem Represents.changes (hm : h.Represents m) (cs : List Change) :
    (Change.all Change.onHeaders cs h).1.Represents (Change.all Change.onMultimap cs m).1 ∧
      (Change.all Change.onHeaders cs h).2 = (Change.all Change.onMultimap cs m).2 := by
  induction cs generalizing h m with
  | nil => exact ⟨hm, rfl⟩
  | cons c cs ih =>
    obtain ⟨hnext, hanswer⟩ := hm.change c
    obtain ⟨hlast, hanswers⟩ := ih hnext
    simp only [Change.all]
    exact ⟨hlast, by rw [hanswer, hanswers]⟩

/-- Headers are what becomes of none by inserting their fields. -/
theorem represents_append (hm : h.Represents m) (fields : List (String × String)) :
    (h.append fields).Represents
      (fields.foldl (fun m field => m.put field.1 (m.getAll field.1 ++ [field.2])) m) := by
  induction fields generalizing h m with
  | nil =>
    intro name
    simpa [append] using hm name
  | cons field fields ih =>
    obtain ⟨hnext, -⟩ := hm.change (.insert field.1 field.2)
    have happend : h.append (field :: fields) = (h.insert field.1 field.2).append fields := by
      simp [append, insert]
    rw [happend]
    exact ih hnext

theorem represents_ofFields (h : Headers) : h.Represents (.ofFields h.fields) := by
  have hempty : empty.Represents Multimap.empty := fun _ => rfl
  have happend : empty.append h.fields = h := by simp [append, empty]
  have hall := represents_append hempty h.fields
  rwa [happend] at hall

/-! ## The order of the fields -/

theorem filter_change (h : Headers) (c : Change) :
    (c.onHeaders h).1.fields.filter c.spares = h.fields.filter c.spares := by
  have hspares : ∀ field, c.spares field = !sameName field.1 c.name := by
    intro field
    rw [Change.spares, sameName_comm]
  rw [funext hspares]
  cases c with
  | insert name value =>
    simp [Change.onHeaders, Change.name, insert, sameName_refl]
  | set name value =>
    simp [Change.onHeaders, Change.name, set, insert, remove, List.filter_filter, sameName_refl]
  | remove name =>
    simp [Change.onHeaders, Change.name, remove, List.filter_filter]

/-- Fields that no change names stay, in their order. -/
theorem filter_changes (h : Headers) (cs : List Change) :
    (Change.all Change.onHeaders cs h).1.fields.filter (fun field => cs.all (·.spares field)) =
      h.fields.filter fun field => cs.all (·.spares field) := by
  induction cs generalizing h with
  | nil => rfl
  | cons c cs ih =>
    have hall : ∀ fields : List (String × String),
        fields.filter (fun field => (c :: cs).all (·.spares field)) =
          (fields.filter fun field => cs.all (·.spares field)).filter c.spares := by
      intro fields
      simp only [List.filter_filter, List.all_cons]
    have hcomm : ∀ fields : List (String × String),
        (fields.filter fun field => cs.all (·.spares field)).filter c.spares =
          (fields.filter c.spares).filter fun field => cs.all (·.spares field) := by
      intro fields
      simp only [List.filter_filter, Bool.and_comm]
    rw [hall, hall, Change.all, ih, hcomm, hcomm, filter_change]

/-! ## The names of the fields -/

/-- Where the first field of a name stands. -/
def position (h : Headers) (name : String) : Nat :=
  h.fields.findIdx fun field => sameName field.1 name

/-- The names of the fields, each once, as its first field spells it and in the order of these
fields. -/
structure Lists (h : Headers) (names : List String) : Prop where
  once : ∀ name, names.filter (sameName · name) = (h.spelling? name).toList
  ordered : names.Pairwise fun a b => h.position a < h.position b

theorem ne_of_mem_newNames {seen : List String} {fields : List (String × String)}
    {name other : String} (hseen : seen.any (sameName · name) = true)
    (h : other ∈ newNames seen fields) : sameName name other = false := by
  rw [← Bool.not_eq_true]
  intro hs
  have hother := not_seen_of_mem_newNames h
  rw [← any_of_sameName hs seen, hseen] at hother
  cases hother

theorem position_cons_of_ne {field : String × String} {name : String}
    (hs : sameName field.1 name = false) (fields : List (String × String)) :
    position ⟨field :: fields⟩ name = position ⟨fields⟩ name + 1 := by
  simp [position, List.findIdx_cons, hs]

theorem pairwise_position_newNames (seen : List String) (fields : List (String × String)) :
    (newNames seen fields).Pairwise fun a b => position ⟨fields⟩ a < position ⟨fields⟩ b := by
  induction fields generalizing seen with
  | nil => exact .nil
  | cons field fields ih =>
    -- where the name of the first field has been seen, new names stand one place further on
    have hlater : ∀ seen : List String, seen.any (sameName · field.1) = true →
        (newNames seen fields).Pairwise fun a b =>
          position ⟨field :: fields⟩ a < position ⟨field :: fields⟩ b := by
      intro seen hseen
      refine (ih seen).imp_of_mem ?_
      intro a b ha hb hab
      rw [position_cons_of_ne (ne_of_mem_newNames hseen ha),
        position_cons_of_ne (ne_of_mem_newNames hseen hb)]
      omega
    rw [newNames]
    split
    · rename_i hseen
      exact hlater seen hseen
    · have hseen : (seen ++ [field.1]).any (sameName · field.1) = true := by
        simp [sameName_refl]
      refine .cons ?_ (hlater _ hseen)
      intro b hb
      have hfirst : position ⟨field :: fields⟩ field.1 = 0 := by
        simp [position, List.findIdx_cons, sameName_refl]
      rw [hfirst, position_cons_of_ne (ne_of_mem_newNames hseen hb)]
      omega

theorem lists_names (h : Headers) : h.Lists h.names where
  once := filter_names h
  ordered := pairwise_position_newNames [] h.fields

/-! ## The number of the fields -/

theorem length_getAll_cons (field : String × String) (fields : List (String × String))
    (name : String) :
    (getAll ⟨field :: fields⟩ name).length =
      (getAll ⟨fields⟩ name).length + if sameName name field.1 then 1 else 0 := by
  simp only [getAll, List.filter_cons, sameName_comm name]
  by_cases hs : sameName field.1 name = true <;> simp [hs]

theorem sum_cons (field : String × String) (fields : List (String × String))
    (names : List String) :
    (names.map fun name => (getAll ⟨field :: fields⟩ name).length).sum =
      (names.map fun name => (getAll ⟨fields⟩ name).length).sum +
        (names.filter (sameName · field.1)).length := by
  induction names with
  | nil => rfl
  | cons name names ih =>
    rw [List.map_cons, List.sum_cons, List.map_cons, List.sum_cons, ih, length_getAll_cons,
      List.filter_cons]
    split
    · rw [List.length_cons]
      omega
    · omega

/-- Each field counts once under names among which its own comes once. -/
theorem length_eq_sum {fields : List (String × String)} {names : List String}
    (h : ∀ field ∈ fields, (names.filter (sameName · field.1)).length = 1) :
    fields.length = (names.map fun name => (getAll ⟨fields⟩ name).length).sum := by
  induction fields with
  | nil => simp [getAll, List.map_const']
  | cons field fields ih =>
    obtain ⟨hfield, hfields⟩ := List.forall_mem_cons.mp h
    rw [sum_cons, hfield, ← ih hfields, List.length_cons]

theorem size_eq_sum (h : Headers) :
    h.size = (h.names.map fun name => (h.getAll name).length).sum := by
  refine length_eq_sum ?_
  intro field hfield
  have hfound : h.contains field.1 = true :=
    List.any_eq_true.mpr ⟨field, hfield, sameName_refl field.1⟩
  rw [filter_names, Option.length_toList, isSome_spelling?, hfound]
  rfl

/-- **Headers are an ordered multimap from folded names.** After any changes of any headers, each
name has the values that the map of their fields has after the same changes, and the removals were
answered alike; the fields that no change names are as they were, in their order. The names are
those of the fields, each once, as and where its first field has it; the first value of a name, its
presence and the number of fields can be told from the values of the names. -/
theorem multimap_of_changes (h : Headers) (cs : List Change) :
    let after := Change.all Change.onHeaders cs h
    let reference := Change.all Change.onMultimap cs (.ofFields h.fields)
    (∀ name, after.1.getAll name = reference.1.getAll name) ∧
      after.2 = reference.2 ∧
      (after.1.fields.filter fun field => cs.all (·.spares field)) =
        (h.fields.filter fun field => cs.all (·.spares field)) ∧
      after.1.Lists after.1.names ∧
      (∀ name, after.1.get? name = (after.1.getAll name).head?) ∧
      (∀ name, after.1.contains name = (after.1.getAll name != [])) ∧
      after.1.size = (after.1.names.map fun name => (after.1.getAll name).length).sum := by
  intro after reference
  obtain ⟨hvalues, hanswers⟩ := (represents_ofFields h).changes cs
  refine ⟨hvalues, hanswers, filter_changes h cs, lists_names after.1, ?_, ?_,
    size_eq_sum after.1⟩
  · intro name
    exact get?_eq_head? after.1 name
  · intro name
    rw [contains_eq]
    cases after.1.getAll name <;> rfl

end Headers
end HttpCache
