import HttpCache.Proofs.Layer.Site

/-!
# HttpCache.Proofs.Layer.Provenance

Where the stored answers of a site come from.

* `lastAnswer` — the last answer of the layers below to a request for a key, bypassed ones apart.
* `Faithful` — all that a memory holds is the last answer for its key.
* `Served` — the ways in which a request is served, when that is so.
* `serves_of_faithful` — one request is served in such a way, and keeps the memory faithful.
* `faithful_and_served_of_reached` — all requests are and do.
-/

namespace HttpCache
namespace Caching

open Act (Runs)
open Entry (Renders)

variable {σ : Type}

/-- An answer of the layers below to a request for the key that was not bypassed. The log has each
request as it was handed down, so that one whose query turns the cache off is marked there. -/
def answerTo (layer : Caching σ) (key : String) : Interaction → Option Response
  | .handled c response =>
    if layer.bypasses c = false ∧ layer.keyOf c.request = key then some response else none
  | _ => none

def lastAnswer (layer : Caching σ) (key : String) (log : List Interaction) : Option Response :=
  (log.filterMap (layer.answerTo key)).getLast?

/-- The entry holds the last answer for the key, and that answer had an allowed status. -/
def Latest (layer : Caching σ) (log : List Interaction) (key : String) (entry : Entry) : Prop :=
  ∃ response wall, layer.lastAnswer key log = some response ∧
    response.status ∈ layer.policy.allowedStatuses ∧ entry = layer.entryOf response wall

/-- All that the memory holds, live or not, is the encoding of the last answer for its key. -/
def Faithful (layer : Caching σ) (m : Memory) (log : List Interaction) : Prop :=
  ∀ key data, m.data? key = some data → ∃ entry, Latest layer log key entry ∧ data = entry.encode

/-- The answer shows the last answer for the key, and that one had an allowed status. -/
def Reproduces (layer : Caching σ) (log : List Interaction) (key : String) (answer : Response) :
    Prop :=
  ∃ latest, layer.lastAnswer key log = some latest ∧
    latest.status ∈ layer.policy.allowedStatuses ∧
    Renders latest.status latest.headers latest.body answer

/-- The ways of a request after `past`: what passes between the layer and its surroundings, and
the answer. -/
inductive Served (layer : Caching σ) (past : List Interaction) (c : Context) :
    List Interaction → Response → Prop where
  | bypassed {answer : Response} (hb : layer.bypasses c.fromRequest = true) :
      Served layer past c [.handled c.fromRequest answer] answer
  /-- The last answer for the key once more. -/
  | hit {answer : Response} (hb : layer.bypasses c.fromRequest = false)
      (hr : Reproduces layer past (layer.keyOf c.request) answer) :
      Served layer past c [.get (layer.keyOf c.request)] answer
  /-- The answer of the layers below, which is stored. -/
  | kept {response : Response} {wall : Int} (hb : layer.bypasses c.fromRequest = false)
      (ha : response.status ∈ layer.policy.allowedStatuses) :
      Served layer past c
        [.get (layer.keyOf c.request), .handled c response,
          .set (layer.keyOf c.request) (layer.entryOf response wall).encode
            layer.policy.staleTtl]
        (sentOn response)
  /-- The answer of the layers below, which may not be stored. -/
  | purged {response : Response} (hb : layer.bypasses c.fromRequest = false)
      (ha : response.status ∉ layer.policy.allowedStatuses) :
      Served layer past c
        [.get (layer.keyOf c.request), .handled c response, .del [layer.keyOf c.request]]
        (sentOn response)
  /-- The last answer for the key in place of a failed one. -/
  | fallback {response answer : Response} (hb : layer.bypasses c.fromRequest = false)
      (ha : response.status ∉ layer.policy.allowedStatuses)
      (ht : layer.policy.isStaleTrigger response.status = true)
      (hr : Reproduces layer past (layer.keyOf c.request) answer) :
      Served layer past c
        [.get (layer.keyOf c.request), .handled c response, .del [layer.keyOf c.request]] answer

variable {layer : Caching σ} {log new : List Interaction} {key : String} {entry : Entry}
variable {m : Memory} {c : Context} {response : Response}

/-! ## The last answer -/

theorem lastAnswer_append (layer : Caching σ) (key : String) (log new : List Interaction) :
    layer.lastAnswer key (log ++ new) =
      (layer.lastAnswer key new).or (layer.lastAnswer key log) := by
  rw [lastAnswer, List.filterMap_append, List.getLast?_append]
  rfl

/-- Looks at the backend and answers to bypassed requests do not count. -/
theorem lastAnswer_get (k : String) :
    layer.lastAnswer key (log ++ [.get k]) = layer.lastAnswer key log := by
  rw [lastAnswer_append]
  rfl

theorem lastAnswer_bypassed (hb : layer.bypasses c = true) :
    layer.lastAnswer key (log ++ [.handled c response]) = layer.lastAnswer key log := by
  rw [lastAnswer_append]
  simp [lastAnswer, answerTo, hb]

theorem lastAnswer_handled (hb : layer.bypasses c = false) {k : String} {i : Interaction}
    (hi : layer.answerTo key i = none) :
    layer.lastAnswer key (log ++ [.get k, .handled c response, i]) =
      if layer.keyOf c.request = key then some response else layer.lastAnswer key log := by
  have hget : layer.answerTo key (.get k) = none := rfl
  have hnew : layer.answerTo key (.handled c response) =
      if layer.keyOf c.request = key then some response else none := by
    simp only [answerTo, hb, true_and]
  rw [lastAnswer_append, lastAnswer, List.filterMap_cons_none hget]
  by_cases hk : layer.keyOf c.request = key
  · rw [if_pos hk] at hnew ⊢
    rw [List.filterMap_cons_some hnew, List.filterMap_cons_none hi]
    rfl
  · rw [if_neg hk] at hnew ⊢
    rw [List.filterMap_cons_none hnew, List.filterMap_cons_none hi]
    rfl

theorem Latest.of_eq (h : Latest layer log key entry)
    (he : layer.lastAnswer key new = layer.lastAnswer key log) : Latest layer new key entry := by
  rw [Latest, he]
  exact h

theorem Latest.status? (h : Latest layer log key entry) : ∃ status, entry.status? = .ok status := by
  obtain ⟨response, wall, -, -, rfl⟩ := h
  exact ⟨response.status, Entry.status?_make ..⟩

theorem Latest.decode_encode (h : Latest layer log key entry) :
    Entry.decode entry.encode = .ok entry := by
  obtain ⟨status, hs⟩ := h.status?
  exact Entry.decode_encode_of_status hs

theorem Latest.reproduces (h : Latest layer log key entry) (merge : HeaderMerge) :
    Reproduces layer log key (entry.replay merge Buffer.empty).2.toResponse := by
  obtain ⟨latest, wall, hl, ha, rfl⟩ := h
  exact ⟨latest, hl, ha, Entry.renders_replay (Entry.status?_make ..) merge⟩

/-! ## What keeps a memory faithful -/

theorem faithful_empty (layer : Caching σ) (capacity : Nat) :
    Faithful layer (.empty capacity) [] := by
  intro key data h
  rw [Memory.data?_empty] at h
  cases h

/-- Nothing is added to the memory, and no answer to the log. -/
theorem Faithful.mono {m' : Memory} (hf : Faithful layer m log)
    (hm : ∀ key data, m'.data? key = some data → m.data? key = some data)
    (he : ∀ key, layer.lastAnswer key new = layer.lastAnswer key log) :
    Faithful layer m' new := by
  intro key data h
  obtain ⟨entry, hl, rfl⟩ := hf key data (hm key data h)
  exact ⟨entry, hl.of_eq (he key), rfl⟩

theorem faithful_elapse (span : Span) (hf : Faithful layer m log) :
    Faithful layer (m.elapse span) log := by
  refine hf.mono (fun key data h => ?_) fun _ => rfl
  rwa [Memory.data?_elapse] at h

theorem faithful_fetch (k : String) (hf : Faithful layer m log) :
    Faithful layer (Memory.fetch k m).state log :=
  hf.mono (fun _ _ h => Memory.of_data?_fetch h) fun _ => rfl

/-- An answer is stored under its own key: there it is the last one from now on, and the last
answers for other keys are what they were. -/
theorem faithful_keep (hf : Faithful layer m log) (hb : layer.bypasses c = false)
    (ha : response.status ∈ layer.policy.allowedStatuses) (wall : Int) (ttl : Span) :
    Faithful layer
      (Memory.keep (layer.keyOf c.request) (layer.entryOf response wall).encode ttl m).state
      (log ++ [.get (layer.keyOf c.request), .handled c response,
        .set (layer.keyOf c.request) (layer.entryOf response wall).encode ttl]) := by
  intro key data h
  rcases Memory.of_data?_keep h with ⟨rfl, rfl⟩ | ⟨hk, h⟩
  · refine ⟨_, ⟨response, wall, ?_, ha, rfl⟩, rfl⟩
    rw [lastAnswer_handled hb rfl, if_pos rfl]
  · obtain ⟨entry, hl, rfl⟩ := hf key data h
    refine ⟨entry, hl.of_eq ?_, rfl⟩
    rw [lastAnswer_handled hb rfl, if_neg (Ne.symm hk)]

/-- After an answer that may not be stored nothing is left under its key. -/
theorem faithful_drop (hf : Faithful layer m log) (hb : layer.bypasses c = false) :
    Faithful layer (Memory.drop [layer.keyOf c.request] m).state
      (log ++ [.get (layer.keyOf c.request), .handled c response,
        .del [layer.keyOf c.request]]) := by
  intro key data h
  rw [Memory.data?_drop] at h
  split at h
  · cases h
  · rename_i hk
    obtain ⟨entry, hl, rfl⟩ := hf key data h
    refine ⟨entry, hl.of_eq ?_, rfl⟩
    rw [lastAnswer_handled hb rfl, if_neg fun he => hk (by simp [he])]

theorem Faithful.latest_of_fetch (hf : Faithful layer m log) {data : Bytes}
    (hv : (Memory.fetch key m).value = .ok data) :
    ∃ entry, Latest layer log key entry ∧ Entry.decode data = .ok entry := by
  obtain ⟨entry, hl, rfl⟩ := hf key data (Memory.data?_of_fetch hv)
  exact ⟨entry, hl, hl.decode_encode⟩

/-- What a faithful memory gives is a fresh last answer, or leads to a miss with none or a stale
one. -/
theorem Faithful.fresh_or_missed (hf : Faithful layer m log) (key : String) (now : Int) :
    (∃ data entry, (Memory.fetch key m).value = .ok data ∧ Entry.decode data = .ok entry ∧
      Latest layer log key entry ∧ entry.isFreshAt now = true) ∨
    ∃ candidate, Missed (Memory.fetch key m).value now candidate ∧
      ∀ entry ∈ candidate, Latest layer log key entry := by
  cases hv : (Memory.fetch key m).value with
  | error e => exact .inr ⟨none, .failed e now, fun entry h => by cases h⟩
  | ok data =>
    obtain ⟨entry, hl, hd⟩ := hf.latest_of_fetch hv
    by_cases hfresh : entry.isFreshAt now = true
    · exact .inl ⟨data, entry, rfl, hd, hl, hfresh⟩
    · refine .inr ⟨some entry, .stale hd (by simpa [Entry.isFreshAt] using hfresh), ?_⟩
      intro other h
      cases h
      exact hl

/-- What stands in for an answer that may not be stored is that answer or the last one before. -/
theorem served_substitute {candidate : Option Entry} (hb : layer.bypasses c.fromRequest = false)
    (ha : response.status ∉ layer.policy.allowedStatuses)
    (hc : ∀ entry ∈ candidate, Latest layer log (layer.keyOf c.request) entry) :
    Served layer log c
      [.get (layer.keyOf c.request), .handled c response, .del [layer.keyOf c.request]]
      (layer.substitute candidate response) := by
  unfold substitute
  split
  · rename_i entry hs
    obtain ⟨hs, ht⟩ := Option.filter_eq_some_iff.mp hs
    exact .fallback hb ha ht ((hc entry hs).reproduces .replace)
  · exact .purged hb ha

end Caching

/-! ## One request and all of them -/

namespace Site

open Act (Runs)
open Caching

variable {τ : Type} {site : Site τ} {h : Housed τ} {c : Context} {log : List Interaction}

/-- A request is served in one of the ways, and the memory is faithful afterwards. -/
def Serves (site : Site τ) (h : Housed τ) (log : List Interaction) (c : Context) : Prop :=
  ∃ answer h' new, site.layer.Exchanges site.answer c h answer h' new ∧
    Served site.layer log c new answer ∧ Faithful site.layer h'.memory (log ++ new)

theorem serves_bypassed (hf : Faithful site.layer h.memory log)
    (hb : site.layer.bypasses c.fromRequest = true) : site.Serves h log c := by
  obtain ⟨response, span, outside, hr⟩ := runs_answer site h c.fromRequest
  refine ⟨_, _, _, exchanges_bypassed hb hr, .bypassed hb, ?_⟩
  exact (faithful_elapse span hf).mono (fun _ _ h => h) fun _ => lastAnswer_bypassed hb

theorem serves_missed {candidate : Option Entry} (hf : Faithful site.layer h.memory log)
    (hb : site.layer.bypasses c.fromRequest = false)
    (hm : Missed (Memory.fetch (site.layer.keyOf c.request) h.memory).value
      (unixNow (site.wall h.outside)) candidate)
    (hc : ∀ entry ∈ candidate, Latest site.layer log (site.layer.keyOf c.request) entry) :
    site.Serves h log c := by
  have hbc : site.layer.bypasses c = false := by rwa [fromRequest_of_not_bypassed hb] at hb
  have hasked := runs_asked site h c
  obtain ⟨response, span, outside, hr⟩ := runs_answer site
    { h with memory := (Memory.fetch (site.layer.keyOf c.request) h.memory).state } c
  have hf' := faithful_elapse span (faithful_fetch (site.layer.keyOf c.request) hf)
  by_cases ha : response.status ∈ site.layer.policy.allowedStatuses
  · exact ⟨_, _, _, exchanges_kept hb hasked hm hr (by simpa [Policy.allowsStatus] using ha)
      (runs_set site _ _ _ _), .kept hb ha, faithful_keep hf' hbc ha _ _⟩
  · exact ⟨_, _, _, exchanges_purged hb hasked hm hr (by simpa [Policy.allowsStatus] using ha)
      (runs_del site _ _), served_substitute hb ha hc, faithful_drop hf' hbc⟩

theorem serves_of_faithful (hf : Faithful site.layer h.memory log) (c : Context) :
    site.Serves h log c := by
  cases hb : site.layer.bypasses c.fromRequest with
  | true => exact serves_bypassed hf hb
  | false =>
    rcases hf.fresh_or_missed (site.layer.keyOf c.request) (unixNow (site.wall h.outside)) with
      ⟨data, entry, hv, hd, hl, hfresh⟩ | ⟨candidate, hm, hc⟩
    · have hasked := runs_asked site h c
      rw [hv] at hasked
      refine ⟨_, _, _, exchanges_fresh hb hasked hd hfresh, .hit hb (hl.reproduces .keep), ?_⟩
      exact (faithful_fetch _ hf).mono (fun _ _ h => h) fun _ => lastAnswer_get _
    · exact serves_missed hf hb hm hc

theorem faithful_visit {w : Watched (Housed τ)} (a : Arrival τ)
    (hf : Faithful site.layer w.state.memory w.log) :
    Faithful site.layer (site.visit a w).state.state.memory (site.visit a w).state.log := by
  have hmeets : Faithful site.layer (a.meets w.state).memory w.log := faithful_elapse a.pause hf
  obtain ⟨answer, h', new, he, -, hf'⟩ := serves_of_faithful hmeets a.context
  rw [(state_visit site he).state]
  exact hf'

theorem faithful_reached (site : Site τ) (capacity : Nat) (outside : τ)
    (arrivals : List (Arrival τ)) :
    Faithful site.layer (site.reached capacity outside arrivals).state.memory
      (site.reached capacity outside arrivals).log := by
  unfold reached
  have hrun : ∀ w : Watched (Housed τ), Faithful site.layer w.state.memory w.log →
      Faithful site.layer (arrivals.foldl (fun w a => (site.visit a w).state) w).state.memory
        (arrivals.foldl (fun w a => (site.visit a w).state) w).log := by
    induction arrivals with
    | nil => exact fun w hf => hf
    | cons a arrivals ih => exact fun w hf => ih _ (faithful_visit a hf)
  exact hrun _ (faithful_empty site.layer capacity)

/-- **All that is served is the last answer for its key.** After any requests the memory holds
only encodings of the last answers for their keys, no value is found that is not an entry, and
the next request is served by the layers below or with the last answer for its own key. -/
theorem faithful_and_served_of_reached (site : Site τ) (capacity : Nat) (outside : τ)
    (before : List (Arrival τ)) (a : Arrival τ) :
    Faithful site.layer (site.reached capacity outside before).state.memory
        (site.reached capacity outside before).log ∧
      (∀ data, (site.layer.asked a.context
          (a.meets (site.reached capacity outside before).state)).value = .ok data →
        ∃ entry, Entry.decode data = .ok entry) ∧
      ∃ answer h' new,
        site.layer.Exchanges site.answer a.context
          (a.meets (site.reached capacity outside before).state) answer h' new ∧
        Served site.layer (site.reached capacity outside before).log a.context new answer ∧
        site.reached capacity outside (before ++ [a]) =
          ⟨h', (site.reached capacity outside before).log ++ new⟩ := by
  have hf := faithful_reached site capacity outside before
  have hmeets := faithful_elapse a.pause hf
  obtain ⟨answer, h', new, he, hs, -⟩ := serves_of_faithful
    (h := a.meets (site.reached capacity outside before).state) hmeets a.context
  refine ⟨hf, ?_, answer, h', new, he, hs, ?_⟩
  · intro data hdata
    rw [(runs_asked site _ a.context).value] at hdata
    obtain ⟨entry, -, hd⟩ := Faithful.latest_of_fetch hmeets hdata
    exact ⟨entry, hd⟩
  · rw [reached_append, (state_visit site he).state]

end Site
end HttpCache
