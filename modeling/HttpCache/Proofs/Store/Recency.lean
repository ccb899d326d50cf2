import HttpCache.Store.Recency
import Mathlib.Data.List.Dedup
import Mathlib.Data.List.Perm.Subperm

/-!
# HttpCache.Proofs.Store.Recency

What is found under a key after each operation of a bounded list. Only making room can lose a
key that was not named; no operation shows a value under a key that it was not stored under.

* `HasRoom` — a value can be put under a key and no other one has to go (`find?_put`).
* `WellFormed.erase`, `WellFormed.put`, `WellFormed.touch` — the keys stay distinct, and their
  number within the capacity.
* `hasRoom_of_subset` — there is room as long as few enough keys are ever stored.
-/

namespace HttpCache
namespace Recency

variable {α : Type}

@[simp] theorem find?_empty (capacity : Nat) (key : String) :
    (empty capacity : Recency α).find? key = none := rfl

theorem find?_erase (r : Recency α) (key other : String) :
    (r.erase key).find? other = if other = key then none else r.find? other := by
  simp only [find?, erase, List.find?_filter]
  by_cases h : other = key
  · subst h
    rw [if_pos rfl, List.find?_eq_none.mpr (by simp), Option.map_none]
  · rw [if_neg h]
    congr 2
    funext entry
    by_cases he : entry.1 = other
    · simp [he, h]
    · simp [he]

theorem find?_foldl_erase (keys : List String) (r : Recency α) (other : String) :
    (keys.foldl erase r).find? other = if other ∈ keys then none else r.find? other := by
  induction keys generalizing r with
  | nil => simp
  | cons key keys ih =>
    rw [List.foldl_cons, ih, find?_erase]
    by_cases hk : other ∈ keys
    · simp [hk]
    · simp [hk]

theorem find?_cons_erase (r : Recency α) (key other : String) (value : α) :
    ({ r with entries := (key, value) :: (r.erase key).entries } : Recency α).find? other =
      if other = key then some value else r.find? other := by
  have herase := find?_erase r key other
  simp only [find?] at herase ⊢
  rw [List.find?_cons]
  by_cases h : other = key
  · subst h
    simp
  · rw [if_neg h] at herase ⊢
    have hkey : (key == other) = false := by simpa using Ne.symm h
    simp only [hkey, herase]

theorem find?_touch (r : Recency α) (key other : String) :
    (r.touch key).find? other = r.find? other := by
  unfold touch
  split
  · rfl
  · rename_i value hv
    rw [find?_cons_erase]
    split
    · rename_i h
      rw [h, hv]
    · rfl

@[simp] theorem erase_erase (r : Recency α) (key : String) :
    (r.erase key).erase key = r.erase key := by
  simp [erase, List.filter_filter]

@[simp] theorem erase_touch (r : Recency α) (key : String) :
    (r.touch key).erase key = r.erase key := by
  unfold touch
  split
  · rfl
  · simp [erase, List.filter_filter]

/-- A value can be put under the key without another one making room. -/
def HasRoom (r : Recency α) (key : String) : Prop := (r.erase key).size < (r.erase key).capacity

theorem hasRoom_of_size_lt {r : Recency α} (h : r.size < r.capacity) (key : String) :
    r.HasRoom key := Nat.lt_of_le_of_lt (List.length_filter_le _ _) h

theorem find?_put {r : Recency α} {key : String} (h : r.HasRoom key) (value : α)
    (other : String) :
    (r.put key value).find? other = if other = key then some value else r.find? other := by
  have hall : ((key, value) :: (r.erase key).entries).take r.capacity =
      (key, value) :: (r.erase key).entries := List.take_of_length_le h
  rw [put, hall, find?_cons_erase]

/-- The value that was put is found under its key, and the others that are left under theirs. -/
theorem of_find?_put {r : Recency α} {key other : String} {value found : α}
    (h : (r.put key value).find? other = some found) :
    (other = key ∧ found = value) ∨ (other ≠ key ∧ r.find? other = some found) := by
  have hall := find?_cons_erase r key other value
  simp only [find?, put, Option.map_eq_some_iff] at h hall
  obtain ⟨entry, hentry, hvalue⟩ := h
  rw [(List.take_prefix _ _).find?_eq_some hentry, Option.map_some, hvalue] at hall
  by_cases hk : other = key
  · rw [if_pos hk] at hall
    exact .inl ⟨hk, Option.some.inj hall⟩
  · rw [if_neg hk] at hall
    exact .inr ⟨hk, hall.symm⟩

/-! ## Distinct keys -/

@[simp] theorem capacity_touch (r : Recency α) (key : String) :
    (r.touch key).capacity = r.capacity := by
  unfold touch
  split <;> rfl

@[simp] theorem capacity_foldl_erase (keys : List String) (r : Recency α) :
    (keys.foldl erase r).capacity = r.capacity := by
  induction keys generalizing r with
  | nil => rfl
  | cons key keys ih => exact ih (r.erase key)

theorem mem_keys_iff {r : Recency α} {key : String} :
    key ∈ r.keys ↔ ∃ value, r.find? key = some value := by
  rw [← Option.isSome_iff_exists, find?, Option.isSome_map, List.find?_isSome]
  simp [keys]

theorem keys_erase (r : Recency α) (key : String) :
    (r.erase key).keys = r.keys.filter (· != key) := by
  rw [keys, keys, List.filter_map]
  rfl

theorem nodup_cons_erase {r : Recency α} (h : r.keys.Nodup) (key : String) :
    (key :: (r.erase key).keys).Nodup := by
  rw [keys_erase]
  exact List.nodup_cons.mpr ⟨by simp, h.filter _⟩

theorem WellFormed.erase {r : Recency α} (h : r.WellFormed) (key : String) :
    (r.erase key).WellFormed where
  nodup := (List.nodup_cons.mp (nodup_cons_erase h.nodup key)).2
  bounded := Nat.le_trans (List.length_filter_le _ _) h.bounded
  positive := h.positive

theorem WellFormed.foldl_erase {r : Recency α} (h : r.WellFormed) (keys : List String) :
    (keys.foldl Recency.erase r).WellFormed := by
  induction keys generalizing r with
  | nil => exact h
  | cons key keys ih => exact ih (h.erase key)

theorem WellFormed.put {r : Recency α} (h : r.WellFormed) (key : String) (value : α) :
    (r.put key value).WellFormed where
  nodup := (nodup_cons_erase h.nodup key).sublist ((List.take_sublist _ _).map _)
  bounded := List.length_take_le _ _
  positive := h.positive

theorem WellFormed.touch {r : Recency α} (h : r.WellFormed) (key : String) :
    (r.touch key).WellFormed := by
  unfold Recency.touch
  split
  · exact h
  · rename_i value hv
    have hnodup := nodup_cons_erase h.nodup key
    have hsub : key :: (r.erase key).keys ⊆ r.keys := by
      rw [keys_erase]
      exact List.cons_subset.mpr ⟨mem_keys_iff.mpr ⟨value, hv⟩, List.filter_sublist.subset⟩
    have hle := (List.subperm_of_subset hnodup hsub).length_le
    simp only [keys, List.length_cons, List.length_map] at hle
    exact ⟨hnodup, Nat.le_trans hle h.bounded, h.positive⟩

/-- There is room for a key when the keys stored so far and this one are among few enough. -/
theorem hasRoom_of_subset {r : Recency α} {pool : List String} {key : String}
    (h : r.keys.Nodup) (hsub : r.keys ⊆ pool) (hkey : key ∈ pool)
    (hpool : pool.dedup.length ≤ r.capacity) : r.HasRoom key := by
  have hall : key :: (r.erase key).keys ⊆ pool.dedup := by
    rw [keys_erase]
    intro other hother
    rcases List.mem_cons.mp hother with rfl | hother
    · exact List.mem_dedup.mpr hkey
    · exact List.mem_dedup.mpr (hsub (List.mem_of_mem_filter hother))
  have hle := (List.subperm_of_subset (nodup_cons_erase h key) hall).length_le
  simp only [keys, List.length_cons, List.length_map] at hle
  exact Nat.lt_of_lt_of_le hle hpool

end Recency
end HttpCache
