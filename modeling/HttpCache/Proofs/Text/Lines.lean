import HttpCache.Proofs.Text.Ascii
import HttpCache.Text.Ascii

/-!
# HttpCache.Proofs.Text.Lines

Lines that end with a carriage return and a line feed, up to an empty one.

* `CutAtFirst` — octets are cut at the first place where a mark stands in them. There is one way
  to do it (`CutAtFirst.unique`).
* `cutAtFirst_emptyLine` — the first empty line is the one that was written after the lines,
  whatever stands behind it.
* `ended_injective` — the lines can be read off their octets.
-/

namespace HttpCache
namespace Text

open Ascii

/-- `mark` stands in `whole` between `front` and `back`, and at no earlier place. -/
structure CutAtFirst (mark whole front back : Bytes) : Prop where
  parts : whole = front ++ (mark ++ back)
  first : ∀ front' back', whole = front' ++ (mark ++ back') → front.length ≤ front'.length

theorem CutAtFirst.unique {mark whole front back front' back' : Bytes}
    (h : CutAtFirst mark whole front back) (h' : CutAtFirst mark whole front' back') :
    front = front' ∧ back = back' := by
  have hlen : front.length = front'.length :=
    Nat.le_antisymm (h.first _ _ h'.parts) (h'.first _ _ h.parts)
  obtain ⟨hfront, hrest⟩ := List.append_inj (h.parts.symm.trans h'.parts) hlen
  exact ⟨hfront, List.append_cancel_left hrest⟩

/-- The octets of lines, each with its end. -/
def ended (lines : List Bytes) : Bytes := lines.flatMap (· ++ [cr, lf])

theorem ended_cons (line : Bytes) (lines : List Bytes) (s : Bytes) :
    ended (line :: lines) ++ s = line ++ cr :: lf :: (ended lines ++ s) := by
  simp [ended]

theorem ended_eq_intercalate (line : Bytes) (lines : List Bytes) :
    ended (line :: lines) = [cr, lf].intercalate (line :: lines) ++ [cr, lf] := by
  induction lines generalizing line with
  | nil => simp [ended]
  | cons next lines ih =>
    rw [List.intercalate_cons_cons, List.append_assoc, ← ih next]
    simp [ended]

/-- Octets that can stand as a line before an empty one. -/
structure IsLine (line : Bytes) : Prop where
  ne_nil : line ≠ []
  not_mem_cr : cr ∉ line

theorem length_ended_cons (line : Bytes) (lines : List Bytes) :
    (ended (line :: lines)).length = line.length + 2 + (ended lines).length := by
  rw [ended, List.flatMap_cons, List.length_append, List.length_append]
  rfl

/-- A mark that is not in `line` is not met before the end of `line`. -/
theorem exists_append_of_not_mem {α : Type} {line s front back : List α} {b : α} (hb : b ∉ line)
    (h : line ++ s = front ++ b :: back) : ∃ more, front = line ++ more := by
  rcases List.append_eq_append_iff.mp h with ⟨more, hmore, -⟩ | ⟨tail, htail, hrest⟩
  · exact ⟨more, hmore⟩
  · cases tail with
    | nil => exact ⟨[], by simpa using htail.symm⟩
    | cons c tail =>
      obtain ⟨rfl, -⟩ := List.cons.inj hrest
      exact absurd (by simp [htail]) hb

theorem append_cons_injective {α : Type} {line s line' s' : List α} {b : α} (hb : b ∉ line)
    (hb' : b ∉ line') (h : line ++ b :: s = line' ++ b :: s') : line = line' ∧ s = s' := by
  obtain ⟨more, rfl⟩ := exists_append_of_not_mem hb h
  rw [List.append_assoc] at h
  have hrest := List.append_cancel_left h
  cases more with
  | nil => exact ⟨(List.append_nil line).symm, (List.cons.inj hrest).2⟩
  | cons c more =>
    obtain ⟨rfl, -⟩ := List.cons.inj hrest
    exact absurd (by simp) hb'

/-- No empty line comes before the end of the lines. By induction on them: where an empty line
starts, it starts in no line, since that would hold a carriage return, and right behind a line only
if no other one follows. -/
theorem length_ended_le {lines : List Bytes} (h : ∀ line ∈ lines, IsLine line) {s : Bytes} :
    ∀ front back, ended lines ++ s = front ++ (cr :: lf :: cr :: lf :: back) →
      (ended lines).length ≤ front.length + 2 := by
  induction lines with
  | nil => intro front back _; exact Nat.zero_le _
  | cons line lines ih =>
    intro front back hwhole
    obtain ⟨hline, hlines⟩ := List.forall_mem_cons.mp h
    rw [ended_cons] at hwhole
    obtain ⟨more, rfl⟩ := exists_append_of_not_mem hline.not_mem_cr hwhole
    rw [List.append_assoc] at hwhole
    have hrest := List.append_cancel_left hwhole
    rw [List.length_append, length_ended_cons]
    match more with
    | [] =>
      cases lines with
      | nil => simp [ended]
      | cons next lines =>
        -- the next line would start with a carriage return
        obtain ⟨hnext, -⟩ := List.forall_mem_cons.mp hlines
        obtain ⟨b, tail, rfl⟩ := List.exists_cons_of_ne_nil hnext.ne_nil
        simp only [ended_cons, List.nil_append, List.cons_append, List.cons.injEq] at hrest
        exact absurd (hrest.2.2.1 ▸ List.mem_cons_self) hnext.not_mem_cr
    | [b] =>
      simp only [List.cons_append, List.nil_append, List.cons.injEq] at hrest
      exact absurd hrest.2.1 (by decide)
    | b :: c :: more =>
      simp only [List.cons_append, List.cons.injEq] at hrest
      have hle := ih hlines more back hrest.2.2
      simp only [List.length_cons]
      omega

theorem cutAtFirst_emptyLine {line : Bytes} {lines : List Bytes}
    (h : ∀ l ∈ line :: lines, IsLine l) (back : Bytes) :
    CutAtFirst [cr, lf, cr, lf] (ended (line :: lines) ++ cr :: lf :: back)
      ([cr, lf].intercalate (line :: lines)) back where
  parts := by simp [ended_eq_intercalate]
  first front back' hwhole := by
    have hle := length_ended_le h front back' (by simpa using hwhole)
    rw [ended_eq_intercalate, List.length_append] at hle
    simpa using hle

theorem ended_injective {lines lines' : List Bytes} (h : ∀ line ∈ lines, cr ∉ line)
    (h' : ∀ line ∈ lines', cr ∉ line) (heq : ended lines = ended lines') : lines = lines' := by
  induction lines generalizing lines' with
  | nil =>
    cases lines' with
    | nil => rfl
    | cons line' lines' => simp [ended] at heq
  | cons line lines ih =>
    cases lines' with
    | nil => simp [ended] at heq
    | cons line' lines' =>
      obtain ⟨hline, hlines⟩ := List.forall_mem_cons.mp h
      obtain ⟨hline', hlines'⟩ := List.forall_mem_cons.mp h'
      have hcons : ∀ l ls, ended (l :: ls) = l ++ cr :: (lf :: ended ls) := fun l ls => by
        simpa using ended_cons l ls []
      rw [hcons, hcons] at heq
      obtain ⟨rfl, htail⟩ := append_cons_injective hline hline' heq
      rw [ih hlines hlines' (List.cons.inj htail).2]

end Text
end HttpCache
