import HttpCache.Proofs.Layer.Lifecycle
import Mathlib.Data.List.Induction

/-!
# HttpCache.Proofs.Layer.Renewal

A stored response stands in for a failed answer once, and is spent.

* `Site.Handles`, `Stores`, `Fails` — the layers below are asked for what is under a key; their
  answer is stored, or it purges the key.
* `Site.FallsBack` — a stored response takes the place of a failed answer.
* `Goes.of_find?` — what is held after a request was stored by it, or held before it; then the
  request did not ask the layers below for that key.
* `Site.Standing` — the entry was stored when the layers below were last asked for its key.
* `spent_once` — between two such answers for one key a new response is stored.
-/

namespace HttpCache
namespace Site

open Caching

variable {τ : Type} {site : Site τ} {c : Context} {h h' : Housed τ} {key : String}
variable {answer own : Response} {log : List Interaction}

/-! ## What a request does for a key -/

/-- The layers below answer a request that looked at the key. -/
def Handles (site : Site τ) (a : Arrival τ) (h : Housed τ) (key : String) : Prop :=
  ∃ own last, (site.attend a h).state.log = [.get key, .handled a.context own, last]

/-- Their answer purges the key. -/
def Fails (site : Site τ) (a : Arrival τ) (h : Housed τ) (key : String) (own : Response) : Prop :=
  (site.attend a h).state.log = [.get key, .handled a.context own, .del [key]]

/-- An entry that is found under the key stands in for a failed answer of the layers below. -/
structure FallsBack (site : Site τ) (a : Arrival τ) (h : Housed τ) (key : String) (entry : Entry) :
    Prop where
  found : ∃ data, (site.look a.context (a.meets h)).value = .ok data ∧
    Entry.decode data = .ok entry
  failed : ∃ own, site.Fails a h key own ∧ site.layer.policy.isStaleTrigger own.status = true

/-- What is held under a key after a request was stored by it, or it was there before and the
layers below were not asked for it. -/
theorem Goes.of_find? {v : Stored} (hg : Goes site c h answer h' log)
    (hv : h'.memory.values.find? key = some v) :
    (∃ own data ttl, log = [.get key, .handled c own, .set key data ttl] ∧
      v.data = (site.layer.entryOf own (site.wall h'.outside)).encode) ∨
    (h.memory.values.find? key = some v ∧ ∀ own last, log ≠ [.get key, .handled c own, last]) := by
  cases hg with
  | bypassed => exact .inr ⟨hv, fun _ _ => by simp⟩
  | corrupt => exact .inr ⟨Memory.of_find?_fetch hv, fun _ _ => by simp⟩
  | fresh => exact .inr ⟨Memory.of_find?_fetch hv, fun _ _ => by simp⟩
  | kept =>
    rcases Recency.of_find?_put hv with ⟨rfl, rfl⟩ | ⟨hk, hv⟩
    · exact .inl ⟨_, _, _, rfl, rfl⟩
    · refine .inr ⟨Memory.of_find?_fetch hv, fun _ _ hlog => ?_⟩
      cases hlog
      exact hk rfl
  | purged =>
    have hv := (Recency.find?_foldl_erase _ _ _).symm.trans hv
    split at hv
    · cases hv
    · rename_i hk
      refine .inr ⟨Memory.of_find?_fetch hv, fun _ _ hlog => ?_⟩
      cases hlog
      exact hk List.mem_cons_self

/-- Only an answer with an allowed status is stored. -/
theorem Goes.of_set {data : Bytes} {ttl : Span} (hg : Goes site c h answer h' log)
    (hset : .set key data ttl ∈ log) :
    ∃ own, log = [.get key, .handled c own, .set key data ttl] ∧
      own.status ∈ site.layer.policy.allowedStatuses ∧
      data = (site.layer.entryOf own (site.wall h'.outside)).encode := by
  cases hg with
  | kept hb hm ha =>
    simp only [List.mem_cons, reduceCtorEq, List.not_mem_nil, or_false, false_or] at hset
    cases hset
    exact ⟨_, rfl, by simpa [Policy.allowsStatus] using ha, rfl⟩
  | _ => simp at hset

/-- An answer with any other status leaves nothing under the key. -/
theorem Goes.of_handled (hg : Goes site c h answer h' log)
    (hb : site.layer.bypasses c.fromRequest = false) (hown : .handled c own ∈ log)
    (ha : own.status ∉ site.layer.policy.allowedStatuses) :
    h'.memory.values.find? (site.layer.keyOf c.request) = none := by
  cases hg with
  | bypassed hb' => rw [hb] at hb'; cases hb'
  | kept _ _ ha' =>
    simp only [List.mem_cons, reduceCtorEq, List.not_mem_nil, or_false, false_or] at hown
    cases hown
    simp [Policy.allowsStatus, ha] at ha'
  | purged =>
    exact (Recency.find?_foldl_erase _ _ _).trans (if_pos List.mem_cons_self)
  | _ => simp at hown

/-- A purge follows an answer that may be replaced by the entry that was found. -/
theorem Goes.of_failed (hg : Goes site c h answer h' log)
    (hlog : log = [.get key, .handled c own, .del [key]]) :
    key = site.layer.keyOf c.request ∧
      ∃ candidate, Missed (site.look c h).value (unixNow (site.wall h.outside)) candidate ∧
        answer = site.layer.substitute candidate own := by
  cases hg with
  | purged hb hm =>
    cases hlog
    exact ⟨rfl, _, hm, rfl⟩
  | _ => cases hlog

/-- A failed answer is sent on, unless a stored one stands in for it. -/
theorem Fails.sent_or_fallsBack {a : Arrival τ} (hf : site.Fails a h key own) :
    (site.attend a h).value = sentOn own ∨ ∃ entry, site.FallsBack a h key entry := by
  obtain ⟨-, candidate, hm, hanswer⟩ := (goes_attend site a h).of_failed hf
  rw [hanswer]
  generalize hget : (site.look a.context (a.meets h)).value = got at hm
  cases hm with
  | failed => exact .inl rfl
  | stale hd =>
    cases htrigger : site.layer.policy.isStaleTrigger own.status with
    | true => exact .inr ⟨_, ⟨_, hget, hd⟩, own, hf, htrigger⟩
    | false => exact .inl (by simp [substitute, htrigger])

/-! ## The entry that is held -/

section Standing

variable {capacity : Nat} {outside : τ} {entry : Entry} {arrivals : List (Arrival τ)}

/-- When the layers below were last asked for the key, their answer was stored as this entry. -/
inductive Standing (site : Site τ) (capacity : Nat) (outside : τ) (key : String) :
    Entry → List (Arrival τ) → Prop where
  | stored {before : List (Arrival τ)} {a : Arrival τ} {own : Response}
      (hs : site.Stores a (site.reached capacity outside before).state key own) :
      Standing site capacity outside key
        (site.layer.entryOf own
          (site.wall (site.reached capacity outside (before ++ [a])).state.outside))
        (before ++ [a])
  | passed {before : List (Arrival τ)} {a : Arrival τ} {entry : Entry}
      (hstanding : Standing site capacity outside key entry before)
      (hnot : ¬site.Handles a (site.reached capacity outside before).state key) :
      Standing site capacity outside key entry (before ++ [a])

theorem Standing.decodes (hst : Standing site capacity outside key entry arrivals) :
    Entry.decode entry.encode = .ok entry := by
  induction hst with
  | stored hs => exact (keeps_entryOf site.layer _ _).decodes
  | passed _ _ ih => exact ih

/-- All that is held was stored when the layers below were last asked for it. -/
theorem standing_of_find? {v : Stored}
    (hv : (site.reached capacity outside arrivals).state.memory.values.find? key = some v) :
    ∃ entry, v.data = entry.encode ∧ Standing site capacity outside key entry arrivals := by
  induction arrivals using List.reverseRecOn with
  | nil => cases hv
  | append_singleton before a ih =>
    rw [reached_snoc] at hv
    rcases (goes_attend site a _).of_find? hv with ⟨own, data, ttl, hlog, hdata⟩ | ⟨hv, hnot⟩
    · refine ⟨_, ?_, .stored ⟨data, ttl, hlog⟩⟩
      rw [reached_snoc]
      exact hdata
    · obtain ⟨entry, hentry, hst⟩ := ih hv
      exact ⟨entry, hentry, .passed hst fun ⟨own, last, hlog⟩ => hnot own last hlog⟩

/-- An entry that stands after a purge was stored after it. -/
theorem Standing.after_failed (hst : Standing site capacity outside key entry arrivals)
    {before between : List (Arrival τ)} {a : Arrival τ}
    (hf : site.Fails a (site.reached capacity outside before).state key own)
    (heq : arrivals = before ++ a :: between) :
    ∃ earlier d later response, between = earlier ++ d :: later ∧
      site.Stores d (site.reached capacity outside (before ++ a :: earlier)).state key response ∧
      entry = site.layer.entryOf response (site.wall
        (site.reached capacity outside (before ++ a :: earlier ++ [d])).state.outside) := by
  induction hst generalizing between with
  | @stored run x response hs =>
    rcases List.eq_nil_or_concat between with rfl | ⟨between, y, rfl⟩
    · obtain ⟨rfl, rfl⟩ := List.append_singleton_inj.mp heq
      obtain ⟨data, ttl, hlog⟩ := hs
      rw [Fails, hlog] at hf
      cases hf
    · rw [List.concat_eq_append, ← List.cons_append, ← List.append_assoc] at heq
      obtain ⟨rfl, rfl⟩ := List.append_singleton_inj.mp heq
      exact ⟨between, x, [], response, List.concat_eq_append, hs, rfl⟩
  | @passed run x entry hst hnot ih =>
    rcases List.eq_nil_or_concat between with rfl | ⟨between, y, rfl⟩
    · obtain ⟨rfl, rfl⟩ := List.append_singleton_inj.mp heq
      exact absurd ⟨own, _, hf⟩ hnot
    · rw [List.concat_eq_append, ← List.cons_append, ← List.append_assoc] at heq
      obtain ⟨rfl, rfl⟩ := List.append_singleton_inj.mp heq
      obtain ⟨earlier, d, later, response, rfl, hs, hentry⟩ := ih rfl
      exact ⟨earlier, d, later ++ [x], response, by simp, hs, hentry⟩

end Standing

/-! ## Stored once, used once -/

section SpentOnce

variable (site : Site τ) (capacity : Nat) (outside : τ)

/-- What a stored response is good for, in every run of requests from an empty memory. -/
structure SpentOnce : Prop where
  /-- Only an answer of the layers below with an allowed status is stored, by the request that it
  answers and under the key that this looked at. -/
  stored : ∀ before a key data ttl,
    .set key data ttl ∈ (site.attend a (site.reached capacity outside before).state).state.log →
      ∃ own, own.status ∈ site.layer.policy.allowedStatuses ∧
        (site.attend a (site.reached capacity outside before).state).state.log =
          [.get key, .handled a.context own, .set key data ttl] ∧
        data = (site.layer.entryOf own
          (site.wall (site.reached capacity outside (before ++ [a])).state.outside)).encode
  /-- An answer that is not stored is sent on, unless a stored one stands in for it. -/
  failed : ∀ before a key own, site.Fails a (site.reached capacity outside before).state key own →
    (site.attend a (site.reached capacity outside before).state).value = sentOn own ∨
      ∃ entry, site.FallsBack a (site.reached capacity outside before).state key entry
  /-- What stands in for a failed answer was stored when the layers below were last asked for the
  key, and it is the answer. -/
  standing : ∀ before a key entry,
    site.FallsBack a (site.reached capacity outside before).state key entry →
      site.Standing capacity outside key entry before ∧
        (site.attend a (site.reached capacity outside before).state).value =
          (entry.replay .replace Buffer.empty).2.toResponse
  /-- What stands in the next time was stored in between. -/
  renewed : ∀ before a between b key entry entry',
    site.FallsBack a (site.reached capacity outside before).state key entry →
    site.FallsBack b (site.reached capacity outside (before ++ a :: between)).state key entry' →
      ∃ earlier d later own, between = earlier ++ d :: later ∧
        site.Stores d (site.reached capacity outside (before ++ a :: earlier)).state key own ∧
        own.status ∈ site.layer.policy.allowedStatuses ∧
        entry' = site.layer.entryOf own (site.wall
          (site.reached capacity outside (before ++ a :: earlier ++ [d])).state.outside)
  /-- Nothing is left under the key of a request that is not bypassed, if the layers below answer
  it with any other status. -/
  purged : ∀ before a own, site.layer.bypasses a.context.fromRequest = false →
    .handled a.context own ∈
      (site.attend a (site.reached capacity outside before).state).state.log →
    own.status ∉ site.layer.policy.allowedStatuses →
      (site.reached capacity outside (before ++ [a])).state.memory.values.find?
        (site.layer.keyOf a.context.request) = none

variable {site capacity outside}

theorem FallsBack.standing {before : List (Arrival τ)} {a : Arrival τ} {entry : Entry}
    (hf : site.FallsBack a (site.reached capacity outside before).state key entry) :
    site.Standing capacity outside key entry before ∧
      (site.attend a (site.reached capacity outside before).state).value =
        (entry.replay .replace Buffer.empty).2.toResponse := by
  obtain ⟨⟨data, hget, hd⟩, own, hlog, htrigger⟩ := hf
  obtain ⟨rfl, candidate, hm, hanswer⟩ := (goes_attend site a _).of_failed hlog
  obtain ⟨hread, -⟩ := hm.reading_eq
  simp only [hget, reading, hd] at hread
  cases hread
  obtain ⟨v, hv, rfl, -⟩ := Memory.find?_of_fetch hget
  obtain ⟨entry', hentry, hst⟩ := standing_of_find? hv
  rw [hentry, hst.decodes] at hd
  cases hd
  refine ⟨hst, hanswer.trans ?_⟩
  simp only [substitute, Option.filter_some, htrigger, if_true]

theorem Stores.allowed {a : Arrival τ} {h : Housed τ} (hs : site.Stores a h key own) :
    own.status ∈ site.layer.policy.allowedStatuses := by
  obtain ⟨data, ttl, hlog⟩ := hs
  have hset : .set key data ttl ∈ (site.attend a h).state.log := by simp [hlog]
  obtain ⟨own', hlog', ha, -⟩ := (goes_attend site a h).of_set hset
  rw [hlog] at hlog'
  cases hlog'
  exact ha

/-- **A stored response stands in for a failed answer at most once.** Whatever hits, failures,
bypassed requests and requests for other keys make up a run, only an answer with an allowed status
is stored; between two answers that stored responses stand in for under one key, the second of
these is stored anew. A request that fails leaves nothing under its key, unless it is bypassed:
then the memory is not touched. -/
theorem spent_once (site : Site τ) (capacity : Nat) (outside : τ) :
    site.SpentOnce capacity outside where
  stored before a key data ttl hset := by
    obtain ⟨own, hlog, ha, hdata⟩ := (goes_attend site a _).of_set hset
    rw [reached_snoc]
    exact ⟨own, ha, hlog, hdata⟩
  failed before a key own hf := hf.sent_or_fallsBack
  standing before a key entry hf := hf.standing
  renewed before a between b key entry entry' hf hf' := by
    obtain ⟨own, hfailed, -⟩ := hf.failed
    obtain ⟨earlier, d, later, response, rfl, hs, hentry⟩ := hf'.standing.1.after_failed hfailed rfl
    exact ⟨earlier, d, later, response, rfl, hs, hs.allowed, hentry⟩
  purged before a own hb hown ha := by
    rw [reached_snoc]
    exact (goes_attend site a _).of_handled hb hown ha

example :
    let site := failingFrom 1060
    let before := [arrivalAfter 0 "/items"]
    let a := arrivalAfter 90 "/items"
    (site.attend a (site.reached 8 1000 before).state).value.status = .ok ∧
      (site.attend (arrivalAfter 1 "/items") (site.reached 8 1000 (before ++ [a])).state).value.status
        = .internalServerError := by decide +kernel

/-- A bypassed request that fails leaves the memory as it is, even if it has the same key. -/
theorem held_after_bypassed_failure :
    let site := failingFrom 1060
    let before := [arrivalAfter 0 "/items"]
    let a := arrivalAfter 90 "/items?cache=false"
    ∃ own, .handled a.context.fromRequest own ∈
        (site.attend a (site.reached 8 1000 before).state).state.log ∧
      own.status ∉ site.layer.policy.allowedStatuses ∧
      site.layer.keyOf a.context.fromRequest.request = "/items" ∧
      (site.reached 8 1000 (before ++ [a])).state.memory.values.find? "/items" ≠ none := by
  intro site before a
  have hb : site.layer.bypasses a.context.fromRequest = true := by decide +kernel
  have hwall : (a.meets (site.reached 8 1000 before).state).outside = 1090 := by decide +kernel
  refine ⟨.ofText .internalServerError "down", ?_, by decide, by decide +kernel, by decide +kernel⟩
  rw [state_attend]
  simp only [course, hb, if_true, value_answer, hwall]
  exact List.mem_singleton_self _

end SpentOnce

end Site
end HttpCache
