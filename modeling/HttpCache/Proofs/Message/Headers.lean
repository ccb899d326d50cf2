import HttpCache.Message.Headers

/-!
# HttpCache.Proofs.Message.Headers

Headers through the values of a name. Each operation changes the values of one name, in any
spelling, and leaves those of every other name alone.

* `getAll_append_named`, `getAll_remove`, `getAll_set` — one equation for each operation.
* `filter_names` — the names of a list are those of its fields, each as its first field spells it.
* `pairwise_names` — each of them comes once.
-/

namespace HttpCache
namespace Headers

open Ascii

theorem sameName_congr {a b : String} (h : sameName a b = true) (c : String) :
    sameName a c = sameName b c := by
  simp only [sameName, beq_iff_eq] at *
  rw [h]

theorem getAll_congr (h : Headers) {a b : String} (hs : sameName a b = true) :
    h.getAll a = h.getAll b := by
  simp only [getAll, sameName_comm _ a, sameName_comm _ b, sameName_congr hs]

theorem contains_eq (h : Headers) (name : String) : h.contains name = !(h.getAll name).isEmpty := by
  rw [contains, getAll, List.isEmpty_map, Bool.eq_iff_iff]
  simp [List.any_eq_true, List.filter_eq_nil_iff]

theorem contains_eq_false_iff (h : Headers) (name : String) :
    h.contains name = false ↔ h.getAll name = [] := by
  simp [contains_eq]

@[simp] theorem getAll_empty (name : String) : empty.getAll name = [] := rfl

theorem getAll_append_named (h : Headers) (name other : String) (values : List String) :
    (h.append (values.map fun value => (name, value))).getAll other =
      h.getAll other ++ if sameName name other then values else [] := by
  simp only [getAll, append, List.filter_append, List.map_append]
  congr 1
  by_cases hs : sameName name other
  · rw [if_pos hs, List.filter_eq_self.mpr (by simp [hs]), List.map_map]
    exact List.map_id values
  · rw [if_neg hs, List.filter_eq_nil_iff.mpr (by simp [hs])]
    rfl

theorem getAll_remove (h : Headers) (name other : String) :
    (h.remove name).getAll other = if sameName name other then [] else h.getAll other := by
  simp only [getAll, remove, List.filter_filter]
  by_cases hs : sameName name other
  · rw [if_pos hs, List.filter_eq_nil_iff.mpr]
    · rfl
    · intro field _
      simp [sameName_comm field.1, sameName_congr hs]
  · rw [if_neg hs]
    congr 1
    refine List.filter_congr fun field _ => ?_
    by_cases ho : sameName field.1 other
    · have hn : sameName field.1 name = false := by
        rw [← Bool.not_eq_true]
        intro hn
        exact hs (sameName_trans (sameName_comm field.1 name ▸ hn) ho)
      simp [ho, hn]
    · simp [ho]

theorem remove_of_getAll_eq_nil {h : Headers} {name : String} (hn : h.getAll name = []) :
    h.remove name = h := by
  rw [getAll, List.map_eq_nil_iff, List.filter_eq_nil_iff] at hn
  have hall : h.fields.filter (fun field => !sameName field.1 name) = h.fields :=
    List.filter_eq_self.mpr fun field hfield => by simp [hn field hfield]
  rw [remove, hall]

theorem getAll_set (h : Headers) (name value other : String) :
    (h.set name value).getAll other =
      if sameName name other then [value] else h.getAll other := by
  rw [set, getAll_insert, getAll_remove]
  by_cases hs : sameName name other <;> simp [hs]

/-! ## Names -/

/-- A name as the first of its fields spells it. -/
def spelling? (h : Headers) (name : String) : Option String :=
  (h.fields.find? fun field => sameName field.1 name).map (·.1)

theorem any_of_sameName {a b : String} (hs : sameName a b = true) (seen : List String) :
    seen.any (sameName · a) = seen.any (sameName · b) := by
  simp only [sameName_comm _ a, sameName_comm _ b, sameName_congr hs]

/-- Of each name that has not been seen, the first spelling is a new name. -/
theorem filter_newNames (seen : List String) (fields : List (String × String)) (name : String) :
    (newNames seen fields).filter (sameName · name) =
      if seen.any (sameName · name) then [] else (spelling? ⟨fields⟩ name).toList := by
  induction fields generalizing seen with
  | nil => simp [newNames, spelling?]
  | cons field fields ih =>
    by_cases hs : sameName field.1 name = true
    · -- the field has the name, and is its first one unless the name has been seen
      have hany := any_of_sameName hs seen
      by_cases hseen : seen.any (sameName · name) = true
      · rw [newNames, if_pos (hany.trans hseen), ih, if_pos hseen, if_pos hseen]
      · have hmore : (seen ++ [field.1]).any (sameName · name) = true := by simp [hs]
        rw [newNames, if_neg (hany ▸ hseen), if_neg hseen, List.filter_cons, if_pos hs, ih,
          if_pos hmore]
        simp [spelling?, hs]
    · have hmore : (seen ++ [field.1]).any (sameName · name) = seen.any (sameName · name) := by
        simp [hs]
      have hskip : spelling? ⟨field :: fields⟩ name = spelling? ⟨fields⟩ name := by
        simp [spelling?, hs]
      rw [newNames, hskip]
      split
      · exact ih seen
      · rw [List.filter_cons, if_neg hs, ih, hmore]

theorem not_seen_of_mem_newNames {seen : List String} {fields : List (String × String)}
    {name : String} (h : name ∈ newNames seen fields) : seen.any (sameName · name) = false := by
  have hmem : name ∈ (newNames seen fields).filter (sameName · name) :=
    List.mem_filter.mpr ⟨h, sameName_refl name⟩
  rw [filter_newNames] at hmem
  split at hmem
  · cases hmem
  · rename_i hseen
    simpa using hseen

theorem pairwise_newNames (seen : List String) (fields : List (String × String)) :
    (newNames seen fields).Pairwise fun a b => sameName a b = false := by
  induction fields generalizing seen with
  | nil => exact .nil
  | cons field fields ih =>
    rw [newNames]
    split
    · exact ih seen
    · refine .cons (fun name hname => ?_) (ih _)
      have hseen := not_seen_of_mem_newNames hname
      rw [List.any_append, Bool.or_eq_false_iff] at hseen
      simpa using hseen.2

/-- No name comes twice, in whatever spelling. -/
theorem pairwise_names (h : Headers) : h.names.Pairwise fun a b => sameName a b = false :=
  pairwise_newNames [] h.fields

theorem filter_names (h : Headers) (name : String) :
    h.names.filter (sameName · name) = (h.spelling? name).toList := by
  simpa [names] using filter_newNames [] h.fields name

theorem isSome_spelling? (h : Headers) (name : String) :
    (h.spelling? name).isSome = h.contains name := by
  rw [spelling?, Option.isSome_map, contains, List.isSome_find?]

theorem any_names (h : Headers) (name : String) :
    h.names.any (sameName · name) = h.contains name := by
  rw [← isSome_spelling?, ← List.isSome_find?, ← List.head?_filter, filter_names]
  cases h.spelling? name <;> rfl

end Headers
end HttpCache
