import HttpCache.Message.Head

/-!
# HttpCache.Proofs.Message.Verdict

Readers that judge octets from left to right: what is found in octets is found in them with any
others behind, unless they are too few to tell.

* `Verdict`: what a reader makes of octets, with what others behind them can change about it.
* `LeftToRight`: a reader all of whose verdicts are such. Readers one after the other have this
  property if each of them has (`LeftToRight.andThen`), and so has a reader after a run of octets
  of a class (`LeftToRight.span`).
-/

namespace HttpCache
namespace Head

/-- What a reader makes of octets. A value rests on the octets that are taken for it, and any
others can stand behind these; a fault stays when others come. Octets that are too few can become
a fault at least, by a zero octet, which stands nowhere in a head. -/
inductive Verdict {α : Type} (reader : Bytes → Except RequestError (α × Bytes)) (s : Bytes) :
    Except RequestError (α × Bytes) → Prop where
  | read (taken rest : Bytes) {value : α} (hs : s = taken ++ rest)
      (hmore : ∀ more, reader (taken ++ more) = .ok (value, more)) :
      Verdict reader s (.ok (value, rest))
  | malformed {fault : HeadFault}
      (hmore : ∀ more, reader (s ++ more) = .error (.malformed fault)) :
      Verdict reader s (.error (.malformed fault))
  | incomplete (hopen : ∃ fault, reader (s ++ [0]) = .error (.malformed fault)) :
      Verdict reader s (.error .incomplete)

def LeftToRight {α : Type} (reader : Bytes → Except RequestError (α × Bytes)) : Prop :=
  ∀ s, Verdict reader s (reader s)

/-- One reader, and another one on what it has left. -/
def andThen {α β : Type} (first : Except RequestError (α × Bytes))
    (next : α → Bytes → Except RequestError (β × Bytes)) : Except RequestError (β × Bytes) :=
  match first with
  | .error e => .error e
  | .ok (value, rest) => next value rest

namespace Verdict

variable {α : Type} {reader reader' : Bytes → Except RequestError (α × Bytes)} {s : Bytes}
variable {result : Except RequestError (α × Bytes)}

/-- Octets that a reader passes over. -/
theorem prepend (passed : Bytes) (h : Verdict reader s result)
    (hpass : ∀ t, reader (passed ++ t) = reader t) : Verdict reader (passed ++ s) result := by
  cases h with
  | read taken rest hs hmore =>
    refine .read (passed ++ taken) rest (by rw [hs, List.append_assoc]) fun more => ?_
    rw [List.append_assoc, hpass, hmore]
  | malformed hmore =>
    refine .malformed fun more => ?_
    rw [List.append_assoc, hpass, hmore]
  | incomplete hopen =>
    refine .incomplete ?_
    rwa [List.append_assoc, hpass]

/-- A reader that needs an octet takes the first one, so it matters only how another reader
treats octets that begin with it. -/
theorem of_cons {b : UInt8} (h : Verdict reader (b :: s) result)
    (hnil : reader [] = .error .incomplete) (passed : Bytes)
    (hpass : ∀ t, reader' (passed ++ b :: t) = reader (b :: t)) :
    Verdict reader' (passed ++ b :: s) result := by
  cases h with
  | read taken rest hs hmore =>
    cases taken with
    | nil =>
      have hnone := hmore []
      rw [List.append_nil, hnil] at hnone
      cases hnone
    | cons c taken =>
      obtain ⟨rfl, -⟩ := List.cons.inj hs
      refine .read (passed ++ b :: taken) rest (by rw [hs, List.append_assoc]) fun more => ?_
      rw [List.append_assoc, List.cons_append, hpass]
      exact hmore more
  | malformed hmore =>
    refine .malformed fun more => ?_
    rw [List.append_assoc, List.cons_append, hpass]
    exact hmore more
  | incomplete hopen =>
    refine .incomplete ?_
    rw [List.append_assoc, List.cons_append, hpass]
    exact hopen

end Verdict

namespace LeftToRight

variable {α β : Type}

theorem pure (value : α) : LeftToRight fun s => .ok (value, s) :=
  fun s => .read [] s rfl fun _ => rfl

theorem fault (fault : HeadFault) :
    LeftToRight fun _ => (.error (.malformed fault) : Except RequestError (α × Bytes)) :=
  fun _ => .malformed fun _ => rfl

theorem andThen {first : Bytes → Except RequestError (α × Bytes)}
    {next : α → Bytes → Except RequestError (β × Bytes)} (hfirst : LeftToRight first)
    (hnext : ∀ value, LeftToRight (next value)) :
    LeftToRight fun s => andThen (first s) next := by
  intro s
  have h := hfirst s
  dsimp only
  generalize first s = result at h
  cases h with
  | @read taken rest value hs hmore =>
    have h' := hnext value rest
    simp only [Head.andThen]
    generalize next value rest = result at h'
    cases h' with
    | read taken' rest' hs' hmore' =>
      refine .read (taken ++ taken') rest' (by rw [hs, hs', List.append_assoc]) fun more => ?_
      simp only [List.append_assoc, hmore, hmore']
    | malformed hmore' =>
      refine .malformed fun more => ?_
      simp only [hs, List.append_assoc, hmore, hmore']
    | incomplete hopen =>
      refine .incomplete ?_
      simpa only [hs, List.append_assoc, hmore] using hopen
  | malformed hmore =>
    refine .malformed fun more => ?_
    simp only [hmore, Head.andThen]
  | incomplete hopen =>
    obtain ⟨fault, hopen⟩ := hopen
    exact .incomplete ⟨fault, by simp only [hopen, Head.andThen]⟩

end LeftToRight

/-! ## Runs of octets -/

/-- A run of octets of a class ends at the first octet outside of it. -/
theorem span_append {member : UInt8 → Bool} {run : Bytes} {b : UInt8}
    (hrun : ∀ c ∈ run, member c = true) (hend : member b = false) (tail : Bytes) :
    (run ++ b :: tail).takeWhile member = run ∧
      (run ++ b :: tail).dropWhile member = b :: tail := by
  rw [List.takeWhile_append_of_pos hrun, List.dropWhile_append_of_pos hrun]
  simp [hend]

/-- A run of octets of a class, and a reader that needs at least one octet after it. -/
theorem LeftToRight.span {α : Type} {member : UInt8 → Bool}
    {next : Bytes → Bytes → Except RequestError (α × Bytes)}
    (hstop : member 0 = false) (hnext : ∀ run, LeftToRight (next run))
    (hnil : ∀ run, next run [] = .error .incomplete) :
    LeftToRight fun s => next (s.takeWhile member) (s.dropWhile member) := by
  intro s
  have hall := List.takeWhile_append_dropWhile (p := member) (l := s)
  have hrun : ∀ c ∈ s.takeWhile member, member c = true := List.all_eq_true.mp List.all_takeWhile
  dsimp only
  cases hd : s.dropWhile member with
  | nil =>
    have hs : s.takeWhile member = s := by rwa [hd, List.append_nil] at hall
    have hopen := hnext s []
    rw [hnil] at hopen ⊢
    cases hopen with
    | incomplete hopen =>
      refine .incomplete ?_
      obtain ⟨htake, hdrop⟩ := span_append (hs ▸ hrun) hstop []
      rw [htake, hdrop]
      exact hopen
  | cons b tail =>
    have hend : member b = false := by
      have hhead := List.head?_dropWhile_not member s
      rw [hd] at hhead
      simpa using hhead
    rw [hd] at hall
    generalize s.takeWhile member = run at hall hrun
    subst hall
    -- the octet that ends the run is taken, so the run ends there whatever comes then
    refine (hnext run (b :: tail)).of_cons (hnil run) run fun t => ?_
    obtain ⟨htake, hdrop⟩ := span_append hrun hend t
    rw [htake, hdrop]

end Head
end HttpCache
