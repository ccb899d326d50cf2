import HttpCache.Key
import HttpCache.Proofs.Text.Order

/-!
# HttpCache.Proofs.Join

A joined key stands for the components it was made of, each as often as it was given.

* `components` — the components in the order in which they are joined. It is the order of their
  octets, and the same for every order in which they are given (`components_eq_of_perm`).
* `Joinable` — there is a component, and none of them holds the mark that stands between them.
* `splitOn_join` — joinable components can be read off the key.
* `join_eq_iff_perm` — so keys are equal exactly if their components are the same up to order.
-/

namespace HttpCache
namespace Key

/-- The components in the order in which they are joined. -/
def components (parts : List String) : List String := parts.mergeSort fun a b => a ≤ b

structure Joinable (parts : List String) : Prop where
  nonempty : parts ≠ []
  unmarked : ∀ part ∈ parts, ';' ∉ part.toList

variable {ps qs : List String}

theorem join_eq (ps : List String) : join ps = ";".intercalate (components ps) := rfl

theorem components_perm (ps : List String) : (components ps).Perm ps := List.mergeSort_perm ps _

theorem pairwise_components (ps : List String) :
    (components ps).Pairwise fun a b => a ≤ b := by
  have htrans : ∀ a b c : String,
      decide (a ≤ b) = true → decide (b ≤ c) = true → decide (a ≤ c) = true := by
    intro a b c hab hbc
    simp only [decide_eq_true_eq] at hab hbc ⊢
    exact String.le_trans hab hbc
  have htotal : ∀ a b : String, (decide (a ≤ b) || decide (b ≤ a)) = true := by
    intro a b
    simp only [Bool.or_eq_true, decide_eq_true_eq]
    exact String.le_total a b
  exact (List.pairwise_mergeSort htrans htotal ps).imp of_decide_eq_true

/-- There is one sorted list of the same components. -/
theorem components_eq_of_perm (h : ps.Perm qs) : components ps = components qs := by
  have hperm : (components ps).Perm (components qs) :=
    (components_perm ps).trans (h.trans (components_perm qs).symm)
  refine hperm.eq_of_pairwise ?_ (pairwise_components ps) (pairwise_components qs)
  intro a b _ _ hab hba
  exact String.le_antisymm hab hba

theorem perm_of_components_eq (h : components ps = components qs) : ps.Perm qs := by
  have hp := (components_perm ps).symm
  rw [h] at hp
  exact hp.trans (components_perm qs)

/-! ## The components of a key -/

theorem Joinable.components (h : Joinable ps) : Joinable (components ps) where
  nonempty := by
    intro hnil
    have hperm := components_perm ps
    rw [hnil] at hperm
    exact h.nonempty hperm.nil_eq.symm
  unmarked part hpart := h.unmarked part ((components_perm ps).mem_iff.mp hpart)

/-- Cut at the marks, a joined key is the list of its components. -/
theorem splitOn_join (h : Joinable ps) :
    (join ps).toList.splitOn ';' = (components ps).map String.toList := by
  have hc := h.components
  have hmark : ∀ cs ∈ (components ps).map String.toList, ';' ∉ cs := by
    intro cs hcs
    obtain ⟨part, hpart, rfl⟩ := List.mem_map.mp hcs
    exact hc.unmarked part hpart
  have hnil : (components ps).map String.toList ≠ [] := by
    intro hmap
    exact hc.nonempty (List.map_eq_nil_iff.mp hmap)
  rw [join_eq, String.toList_intercalate]
  exact List.splitOn_intercalate ';' hmark hnil

theorem components_eq_of_join_eq (hp : Joinable ps) (hq : Joinable qs) (h : join ps = join qs) :
    components ps = components qs := by
  have hsplit : (components ps).map String.toList = (components qs).map String.toList := by
    rw [← splitOn_join hp, ← splitOn_join hq, h]
  exact (List.map_inj_right fun _ _ => String.toList_injective).mp hsplit

/-- **A joined key names its components, whatever their order.** If there is a component and none
of them holds the mark, equal keys have the same components, each of them as often. Another order
never makes another key, marked components or not: the components stand in the order of their
octets. -/
theorem join_eq_iff_perm :
    (∀ ps qs, Joinable ps → Joinable qs → (join ps = join qs ↔ ps.Perm qs)) ∧
      (∀ ps qs : List String, ps.Perm qs → join ps = join qs) ∧
      ∀ ps, ∃ sorted : List String, sorted.Perm ps ∧
        (sorted.Pairwise fun a b => Text.utf8 a ≤ Text.utf8 b) ∧
        join ps = ";".intercalate sorted := by
  have hcongr : ∀ ps qs : List String, ps.Perm qs → join ps = join qs := by
    intro ps qs h
    rw [join_eq, join_eq, components_eq_of_perm h]
  refine ⟨?_, hcongr, ?_⟩
  · intro ps qs hp hq
    constructor
    · intro h
      exact perm_of_components_eq (components_eq_of_join_eq hp hq h)
    · exact hcongr ps qs
  · intro ps
    have hsorted := (pairwise_components ps).imp fun hab => Text.utf8_le_iff.mpr hab
    exact ⟨components ps, components_perm ps, hsorted, join_eq ps⟩

/-- A repeated component and an empty one count; a mark in a component does not matter to the
order. -/
theorem join_eq_of_repeated :
    Joinable ["b", "", "a", "b"] ∧ Joinable ["b", "a", "b", ""] ∧ Joinable ["b", "a", ""] ∧
      join ["b", "", "a", "b"] = join ["b", "a", "b", ""] ∧
      join ["b", "", "a", "b"] ≠ join ["b", "a", ""] ∧
      join ["b;a", "a"] = join ["a", "b;a"] := by
  have h₁ : Joinable ["b", "", "a", "b"] := ⟨by decide, by decide⟩
  have h₂ : Joinable ["b", "a", "b", ""] := ⟨by decide, by decide⟩
  have h₃ : Joinable ["b", "a", ""] := ⟨by decide, by decide⟩
  obtain ⟨hiff, hcongr, -⟩ := join_eq_iff_perm
  refine ⟨h₁, h₂, h₃, (hiff _ _ h₁ h₂).mpr (by decide), ?_, hcongr _ _ (by decide)⟩
  intro h
  have hperm := (hiff _ _ h₁ h₃).mp h
  exact absurd hperm (by decide)

/-- No component and one empty component are the same text. -/
example : join [] = join [""] := by decide +kernel

end Key
end HttpCache
