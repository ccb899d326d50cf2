import HttpCache.Proofs.Entry.Replay

/-!
# HttpCache.Proofs.Entry.Merging

A stored response in front of a sink that has headers, a status and a body already.

* `Merged` — what the sink has afterwards: for each name the values of the side that wins, the
  marker once, the first status and both bodies.
* `foldl_mergeName_empty` — in front of no headers it does not matter who wins.
* `replay_merged` — a replay merges, in either mode.
* `status_of_unknown_code` — a status code that is not known is sent as 200.
-/

namespace HttpCache
namespace Entry

open Ascii
open Headers (contains_eq contains_eq_false_iff remove_of_getAll_eq_nil)

/-- The values of a name after a merge: those of the side that wins, unless it has none. -/
def mergedValues (merge : HeaderMerge) (present stored : List String) : List String :=
  match merge with
  | .keep => if present = [] then stored else present
  | .replace => if stored = [] then present else stored

theorem getAll_mergeHeaders (stored : Headers) (merge : HeaderMerge) (present : Headers)
    {name : String} (hm : sameName markerHeader name = false) :
    (mergeHeaders stored merge present).getAll name =
      mergedValues merge (present.getAll name) (stored.getAll name) := by
  cases merge with
  | keep =>
    rw [getAll_mergeHeaders_keep stored present hm, contains_eq]
    by_cases hp : present.getAll name = [] <;> simp [mergedValues, hp]
  | replace =>
    rw [getAll_mergeHeaders_replace stored present hm, contains_eq]
    by_cases hs : stored.getAll name = [] <;> simp [mergedValues, hs]

/-! ## In front of no headers -/

/-- Names that the sink does not have are added in both modes. By induction on the names: what is
added for one of them leaves the sink without the others. -/
theorem foldl_mergeName_eq (stored : Headers) {names : List String}
    (hnames : names.Pairwise fun a b => sameName a b = false) :
    ∀ present : Headers, (∀ name ∈ names, present.getAll name = []) →
      names.foldl (mergeName stored .keep) present =
        names.foldl (mergeName stored .replace) present := by
  induction hnames with
  | nil => intro present _; rfl
  | @cons name names hname _ ih =>
    intro present habsent
    obtain ⟨hfirst, hothers⟩ := List.forall_mem_cons.mp habsent
    have hstep : mergeName stored .keep present name = mergeName stored .replace present name := by
      simp only [mergeName, (contains_eq_false_iff present name).mpr hfirst,
        remove_of_getAll_eq_nil hfirst, Bool.false_eq_true, if_false]
    rw [List.foldl_cons, List.foldl_cons, ← hstep]
    refine ih _ fun other hother => ?_
    rw [getAll_mergeName_keep, hname other hother]
    exact hothers other hother

theorem mergeHeaders_empty (stored : Headers) :
    mergeHeaders stored .keep .empty = mergeHeaders stored .replace .empty := by
  rw [mergeHeaders, mergeHeaders,
    foldl_mergeName_eq stored stored.pairwise_names .empty fun _ _ => rfl]

/-! ## Replaying -/

/-- What a buffer has after a replay of an entry. A name is any name but that of the marker, in any
spelling. -/
structure Merged (e : Entry) (merge : HeaderMerge) (before after : Buffer) : Prop where
  values : ∀ name, sameName markerHeader name = false →
    after.headers.getAll name =
      mergedValues merge (before.headers.getAll name) (e.headers.getAll name)
  marker : after.headers.getAll markerHeader = ["true"]
  /-- A status that was committed stays; a code that is not known counts as 200. -/
  status : after.status =
    some (before.status.getD ((Status.ofCode? e.statusCode.toNat).getD .ok))
  body : after.body = before.body ++ e.body

theorem statusOrOk_eq_getD (e : Entry) :
    e.statusOrOk = (Status.ofCode? e.statusCode.toNat).getD .ok := by
  simp only [statusOrOk, status?]
  cases Status.ofCode? e.statusCode.toNat <;> rfl

theorem replay_buffer (e : Entry) (merge : HeaderMerge) (before : Buffer) :
    e.replay merge before =
      (.ok (), { status := some (before.status.getD e.statusOrOk)
                 headers := mergeHeaders e.headers merge before.headers
                 body := before.body ++ e.body }) := by
  rw [replay]
  split
  · rename_i hb
    rw [List.isEmpty_iff] at hb
    rw [hb, List.append_nil]
    rfl
  · rfl

/-- **Merging loses nothing and doubles nothing.** A replay into a buffer cannot fail. Afterwards
each name has the values of the side that wins, in order, or those of the other side if it has
none; the marker is there once; the body follows what was written before; and the status is the
one committed before, or else that of the entry. Without headers in the buffer both modes do the
same. -/
theorem replay_merged (e : Entry) (before : Buffer) :
    (∀ merge, ∃ after, e.replay merge before = (.ok (), after) ∧ Merged e merge before after) ∧
      e.replay .keep { before with headers := .empty } =
        e.replay .replace { before with headers := .empty } := by
  constructor
  · intro merge
    refine ⟨_, replay_buffer e merge before, ?_⟩
    exact {
      values := fun name hm => getAll_mergeHeaders e.headers merge before.headers hm
      marker := getAll_mergeHeaders_marker e.headers merge before.headers
      status := by rw [statusOrOk_eq_getD]
      body := rfl }
  · rw [replay_buffer, replay_buffer, mergeHeaders_empty]

/-- An entry with the code 299, which no status has, is sent with another one. -/
theorem status_of_unknown_code :
    ((Entry.mk .empty [] 299 0).replay .keep Buffer.empty).2.status = some .ok ∧
      (Entry.mk .empty [] 299 0).statusCode.toNat ≠ Status.ok.code := by
  decide

end Entry
end HttpCache
