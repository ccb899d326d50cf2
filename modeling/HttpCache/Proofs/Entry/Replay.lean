import HttpCache.Entry.Replay
import HttpCache.Proofs.Message.Headers

/-!
# HttpCache.Proofs.Entry.Replay

What a stored response looks like when it is sent again.

* `getAll_mergeHeaders_keep`, `getAll_mergeHeaders_replace` — for each name, who wins.
* `Renders` — an answer shows a stored response, marked as such.
* `renders_replay` — a replay in front of nothing shows the entry.
-/

namespace HttpCache
namespace Entry

open Ascii
open Headers (getAll_congr getAll_append_named getAll_remove contains_eq contains_eq_false_iff)

/-! ## Merging headers -/

theorem getAll_mergeName_keep (stored present : Headers) (name other : String) :
    (mergeName stored .keep present name).getAll other =
      if sameName name other && !present.contains other then stored.getAll other
      else present.getAll other := by
  by_cases hs : sameName name other
  · simp only [mergeName, contains_eq, getAll_congr present hs]
    by_cases hp : present.getAll other = []
    · rw [if_neg (by simp [hp]), getAll_append_named, if_pos hs, getAll_congr stored hs]
      simp [hs, hp]
    · rw [if_pos (by simp [hp]), if_neg (by simp [hp])]
  · simp only [mergeName]
    split
    · simp [hs]
    · rw [getAll_append_named]
      simp [hs]

theorem getAll_mergeName_replace (stored present : Headers) (name other : String) :
    (mergeName stored .replace present name).getAll other =
      if sameName name other then stored.getAll other else present.getAll other := by
  rw [mergeName, getAll_append_named, getAll_remove]
  by_cases hs : sameName name other
  · simp [hs, getAll_congr stored hs]
  · simp [hs]

theorem getAll_foldl_keep (stored : Headers) (names : List String) (other : String) :
    ∀ present : Headers, (names.foldl (mergeName stored .keep) present).getAll other =
      if names.any (sameName · other) && !present.contains other then stored.getAll other
      else present.getAll other := by
  induction names with
  | nil => intro present; rfl
  | cons name names ih =>
    intro present
    rw [List.foldl_cons, ih, contains_eq, getAll_mergeName_keep, List.any_cons]
    by_cases hp : present.contains other
    · simp [hp, ← contains_eq_false_iff]
    · have hnil := (contains_eq_false_iff present other).mp (by simpa using hp)
      by_cases hs : sameName name other <;> by_cases ho : stored.getAll other = [] <;>
        simp [hp, hs, ho, hnil]

theorem getAll_foldl_replace (stored : Headers) (names : List String) (other : String) :
    ∀ present : Headers, (names.foldl (mergeName stored .replace) present).getAll other =
      if names.any (sameName · other) then stored.getAll other else present.getAll other := by
  induction names with
  | nil => intro present; rfl
  | cons name names ih =>
    intro present
    rw [List.foldl_cons, ih, getAll_mergeName_replace, List.any_cons]
    by_cases hs : sameName name other <;> simp [hs]

theorem getAll_mergeHeaders_marker (stored : Headers) (merge : HeaderMerge) (present : Headers) :
    (mergeHeaders stored merge present).getAll markerHeader = ["true"] := by
  rw [mergeHeaders, Headers.getAll_set, if_pos (sameName_refl _)]

theorem getAll_mergeHeaders_keep (stored present : Headers) {name : String}
    (hm : sameName markerHeader name = false) :
    (mergeHeaders stored .keep present).getAll name =
      if present.contains name then present.getAll name else stored.getAll name := by
  rw [mergeHeaders, Headers.getAll_set, if_neg (by simp [hm]), getAll_foldl_keep,
    Headers.any_names]
  by_cases hp : present.contains name
  · simp [hp]
  · by_cases hs : stored.contains name
    · simp [hp, hs]
    · have h₁ := (contains_eq_false_iff present name).mp (by simpa using hp)
      have h₂ := (contains_eq_false_iff stored name).mp (by simpa using hs)
      simp [hp, hs, h₁, h₂]

theorem getAll_mergeHeaders_replace (stored present : Headers) {name : String}
    (hm : sameName markerHeader name = false) :
    (mergeHeaders stored .replace present).getAll name =
      if stored.contains name then stored.getAll name else present.getAll name := by
  rw [mergeHeaders, Headers.getAll_set, if_neg (by simp [hm]), getAll_foldl_replace,
    Headers.any_names]

/-! ## Replaying in front of nothing -/

/-- An answer shows a stored response: its status, its body, for each name but the marker its
values in order, and the marker once. -/
structure Renders (status : Status) (headers : Headers) (body : Bytes) (answer : Response) :
    Prop where
  status : answer.status = status
  body : answer.body = body
  values : ∀ name, sameName markerHeader name = false →
    answer.headers.getAll name = headers.getAll name
  marker : answer.headers.getAll markerHeader = ["true"]

theorem getAll_mergeHeaders_empty (stored : Headers) (merge : HeaderMerge) {name : String}
    (hm : sameName markerHeader name = false) :
    (mergeHeaders stored merge .empty).getAll name = stored.getAll name := by
  cases merge with
  | keep =>
    rw [getAll_mergeHeaders_keep stored .empty hm]
    rfl
  | replace =>
    rw [getAll_mergeHeaders_replace stored .empty hm]
    by_cases hs : stored.contains name
    · rw [if_pos hs]
    · rw [if_neg hs, (contains_eq_false_iff stored name).mp (by simpa using hs)]
      rfl

theorem replay_empty (e : Entry) (merge : HeaderMerge) :
    (e.replay merge Buffer.empty).2.toResponse =
      .ofParts e.statusOrOk (mergeHeaders e.headers merge .empty) e.body := by
  rw [replay]
  split
  · rename_i hb
    rw [List.isEmpty_iff] at hb
    rw [hb]
    rfl
  · rfl

theorem statusOrOk_eq {e : Entry} {status : Status} (h : e.status? = .ok status) :
    e.statusOrOk = status := by
  simp [statusOrOk, h]

theorem renders_replay {e : Entry} {status : Status} (h : e.status? = .ok status)
    (merge : HeaderMerge) :
    Renders status e.headers e.body (e.replay merge Buffer.empty).2.toResponse := by
  rw [replay_empty]
  exact {
    status := statusOrOk_eq h
    body := rfl
    values := fun name hm => getAll_mergeHeaders_empty e.headers merge hm
    marker := getAll_mergeHeaders_marker e.headers merge .empty }

end Entry
end HttpCache
