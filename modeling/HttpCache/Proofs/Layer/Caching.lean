import HttpCache.Proofs.Entry.Codec
import HttpCache.Proofs.Entry.Replay
import HttpCache.Proofs.Layer.Watched
import HttpCache.Proofs.Sink.Capture

/-!
# HttpCache.Proofs.Layer.Caching

What a cache layer does with one request, for any backend, clock and layers below.

* `runs_lookup` … `runs_conclude_purged` — one lemma for each step of the layer, and for each of
  its outcomes.
* `Exchanges` — the answer, the state afterwards, and all that passed between the layer and its
  surroundings.
* `exchanges_bypassed`, `exchanges_corrupt`, `exchanges_fresh`, `exchanges_kept`,
  `exchanges_purged` — the five ways of a request.
-/

namespace HttpCache
namespace Caching

open Act (Runs)
open Entry (Renders)

variable {σ : Type} {layer : Caching σ}

/-! ## The steps of the layer -/

/-- The call that opens an exchange. -/
def asked (layer : Caching σ) (c : Context) : Act σ (Except CacheError Bytes) :=
  layer.await .get (layer.store.get (layer.keyOf c.request))

def reading (got : Except CacheError Bytes) : Except EntryError (Option Entry) :=
  match got with
  | .error _ => .ok none
  | .ok data =>
    match Entry.decode data with
    | .error e => .error e
    | .ok entry => .ok (some entry)

/-- The entry under which an answer is stored at a time of the wall clock. -/
def entryOf (layer : Caching σ) (response : Response) (wall : Int) : Entry :=
  .make response.headers response.body response.status layer.policy.ttl wall

/-- The stored response in place of a failed one, if there is one and it may be used. -/
def substitute (layer : Caching σ) (candidate : Option Entry) (response : Response) : Response :=
  match candidate.filter fun _ => layer.policy.isStaleTrigger response.status with
  | some entry => (entry.replay .replace Buffer.empty).2.toResponse
  | none => sentOn response

section Steps

variable {s s' s'' s₃ : σ} {key : String}

theorem runs_lookup {got : Except CacheError Bytes}
    (h : (layer.await .get (layer.store.get key)).Runs s got s') :
    (layer.lookup key).Runs s (reading got) s' := by
  refine h.bind ?_
  cases got with
  | error e => exact (Runs.report _ _).bind (.pure _ _)
  | ok data =>
    simp only [reading]
    cases Entry.decode data with
    | error e => exact (Runs.report _ _).bind (.pure _ _)
    | ok entry => exact .pure _ _

theorem runs_save {entry : Entry} {result : Except CacheError Unit}
    (h : (layer.await .set (layer.store.set key entry.encode layer.policy.staleTtl)).Runs s
      result s') : (layer.save key entry).Runs s () s' := by
  refine h.bind ?_
  cases result <;> exact .report _ _

theorem runs_purge {result : Except CacheError Unit}
    (h : (layer.await .del (layer.store.del [key])).Runs s result s') :
    (layer.purge key).Runs s () s' := by
  refine h.bind ?_
  cases result <;> exact .report _ _

theorem runs_conclude_kept {candidate : Option Entry} {response : Response}
    {result : Except CacheError Unit} (ha : layer.policy.allowsStatus response.status = true)
    (h : (layer.await .set (layer.store.set key
      (layer.entryOf response (layer.clock.wall s)).encode layer.policy.staleTtl)).Runs s
        result s') :
    (layer.conclude key candidate response).Runs s (sentOn response) s' := by
  obtain ⟨hbuffer, hinner⟩ := released_captured layer response
  have hentry : ∀ wall, Entry.make (Sink.headers (released (layer.captured response)))
      (released (layer.captured response)).takeBuffer.1 response.status layer.policy.ttl wall =
      layer.entryOf response wall := by
    intro wall
    simp only [entryOf, Capture.takeBuffer, hbuffer, Sink.headers, hinner]
  rw [conclude, status_captured, Option.getD_some, if_pos ha]
  simp only [keep, hentry, toResponse_released]
  exact (Runs.read _ _).bind ((runs_save h).bind (.pure _ _))

theorem runs_conclude_purged {candidate : Option Entry} {response : Response}
    {result : Except CacheError Unit} (ha : layer.policy.allowsStatus response.status = false)
    (h : (layer.await .del (layer.store.del [key])).Runs s result s') :
    (layer.conclude key candidate response).Runs s (layer.substitute candidate response) s' := by
  rw [conclude, status_captured, Option.getD_some, if_neg (by simp [ha]), discard, substitute]
  cases hf : candidate.filter fun _ => layer.policy.isStaleTrigger response.status with
  | some entry =>
    have ht := (Option.filter_eq_some_iff.mp hf).2
    dsimp only
    rw [← staleAnswer_captured layer entry ht]
    exact (Runs.report _ _).bind ((Runs.pure _ _).bind ((runs_purge h).bind (.pure _ _)))
  | none =>
    dsimp only
    rw [toResponse_released]
    exact (Runs.pure _ _).bind ((runs_purge h).bind (.pure _ _))

end Steps

/-! ## The layer around the layers below it -/

section Around

variable {l : Layer σ} {inner : Context → Act σ Response} {c c' : Context} {s s' s'' s₃ : σ}
variable {response answer : Response}

theorem runs_around_answer (h : (l c).Runs s (.answer response) s') :
    (l.around inner c).Runs s response s' :=
  h.bind (.pure _ _)

theorem runs_around_forward {after : Response → Act σ Response}
    (h : (l c).Runs s (.forward c' after) s') (hinner : (inner c').Runs s' response s'')
    (hafter : (after response).Runs s'' answer s₃) : (l.around inner c).Runs s answer s₃ :=
  h.bind (hinner.bind hafter)

end Around

/-- A request that is not bypassed is handed down as it came. -/
theorem fromRequest_of_not_bypassed {c : Context} (h : layer.bypasses c.fromRequest = false) :
    c.fromRequest = c := by
  unfold Context.fromRequest at h ⊢
  split
  · rename_i hq
    rw [if_pos hq] at h
    simp [bypasses] at h
  · rfl

def found (layer : Caching σ) (c : Context) :
    Except EntryError (Option Entry) → Act σ (Step σ)
  | .error e => pure (.answer (Problem.respond .internalServerError e.message))
  | .ok candidate => layer.serve (layer.keyOf c.request) candidate c

theorem toLayer_of_not_bypassed {c : Context} (hb : layer.bypasses c.fromRequest = false) :
    layer.toLayer c = layer.lookup (layer.keyOf c.request) >>= layer.found c := by
  have hc := fromRequest_of_not_bypassed hb
  rw [hc] at hb
  simp only [toLayer, hc, hb, Bool.false_eq_true, if_false]
  refine bind_congr fun result => ?_
  cases result with
  | error e => rfl
  | ok candidate => rfl

section Requests

variable {handler : Context → Act σ Response} {c : Context} {s s' s'' s₃ : σ}
variable {data : Bytes} {entry : Entry} {response answer : Response}

theorem runs_bypassed (hb : layer.bypasses c.fromRequest = true)
    (hr : (handler c.fromRequest).Runs s response s') :
    (layer.toLayer.around handler c).Runs s response s' := by
  refine runs_around_forward ?_ hr (.pure _ _)
  simp only [toLayer, hb, if_true]
  exact (Runs.report _ _).bind (.pure _ _)

theorem runs_toLayer_looked_up {candidate : Option Entry} {step : Step σ}
    {got : Except CacheError Bytes} (hb : layer.bypasses c.fromRequest = false)
    (hget : (layer.asked c).Runs s got s')
    (hr : reading got = .ok candidate)
    (hs : (layer.serve (layer.keyOf c.request) candidate c).Runs s' step s'') :
    (layer.toLayer c).Runs s step s'' := by
  have hlookup := runs_lookup hget
  rw [hr] at hlookup
  rw [toLayer_of_not_bypassed hb]
  exact hlookup.bind hs

theorem runs_corrupt {e : EntryError} (hb : layer.bypasses c.fromRequest = false)
    (hget : (layer.asked c).Runs s (.ok data) s')
    (hd : Entry.decode data = .error e) :
    (layer.toLayer.around handler c).Runs s (Problem.respond .internalServerError e.message)
      s' := by
  have hlookup := runs_lookup hget
  simp only [reading, hd] at hlookup
  refine runs_around_answer ?_
  rw [toLayer_of_not_bypassed hb]
  exact hlookup.bind (.pure _ _)

theorem runs_fresh (hb : layer.bypasses c.fromRequest = false)
    (hget : (layer.asked c).Runs s (.ok data) s')
    (hd : Entry.decode data = .ok entry)
    (hf : entry.isFreshAt (unixNow (layer.clock.wall s')) = true) :
    (layer.toLayer.around handler c).Runs s entry.toResponse s' := by
  have hread : reading (.ok data) = .ok (some entry) := by simp only [reading, hd]
  refine runs_around_answer (runs_toLayer_looked_up hb hget hread ?_)
  refine (Runs.read _ _).bind ?_
  simp only [Option.filter_some, hf, if_true]
  exact (Runs.report _ _).bind (.pure _ _)

/-- A backend that gave nothing fresh: it failed, or its entry is stale by now. -/
inductive Missed : Except CacheError Bytes → Int → Option Entry → Prop where
  | failed (e : CacheError) (now : Int) : Missed (.error e) now none
  | stale {data : Bytes} {entry : Entry} {now : Int} (hd : Entry.decode data = .ok entry)
      (hs : entry.expiration.toInt ≤ now) : Missed (.ok data) now (some entry)

theorem Missed.reading_eq {got : Except CacheError Bytes} {now : Int} {candidate : Option Entry}
    (h : Missed got now candidate) :
    reading got = .ok candidate ∧ candidate.filter (·.isFreshAt now) = none := by
  cases h with
  | failed e now => exact ⟨rfl, rfl⟩
  | stale hd hs =>
    refine ⟨by simp only [reading, hd], ?_⟩
    simp [Option.filter_some, Entry.isFreshAt, hs]

theorem runs_missed {got : Except CacheError Bytes} {candidate : Option Entry}
    (hb : layer.bypasses c.fromRequest = false)
    (hget : (layer.asked c).Runs s got s')
    (hm : Missed got (unixNow (layer.clock.wall s')) candidate)
    (hr : (handler c).Runs s' response s'')
    (hc : (layer.conclude (layer.keyOf c.request) candidate response).Runs s'' answer s₃) :
    (layer.toLayer.around handler c).Runs s answer s₃ := by
  obtain ⟨hread, hfilter⟩ := hm.reading_eq
  refine runs_around_forward (runs_toLayer_looked_up hb hget hread ?_) hr hc
  refine (Runs.read _ _).bind ?_
  simp only [hfilter]
  exact (Runs.report _ _).bind (.pure _ _)

end Requests

/-! ## Whole exchanges -/

/-- The layer, around `handler`, answers a request with `answer` and leaves the state `s'`, and
`log` is all that passes between it and its surroundings, in order. -/
structure Exchanges (layer : Caching σ) (handler : Context → Act σ Response) (c : Context) (s : σ)
    (answer : Response) (s' : σ) (log : List Interaction) : Prop where
  plain : (layer.toLayer.around handler c).Runs s answer s'
  watched : ∀ past, (layer.watched.toLayer.around (watchedHandler handler) c).Runs ⟨s, past⟩
    answer ⟨s', past ++ log⟩

section Exchanges

variable {handler : Context → Act σ Response} {c : Context} {s s' s'' s₃ : σ}
variable {data : Bytes} {entry : Entry} {response : Response}

theorem exchanges_bypassed (hb : layer.bypasses c.fromRequest = true)
    (hr : (handler c.fromRequest).Runs s response s') :
    Exchanges layer handler c s response s' [.handled c.fromRequest response] where
  plain := runs_bypassed hb hr
  watched past := runs_bypassed hb (runs_watchedHandler past hr)

theorem exchanges_corrupt {e : EntryError} (hb : layer.bypasses c.fromRequest = false)
    (hget : (layer.asked c).Runs s (.ok data) s')
    (hd : Entry.decode data = .error e) :
    Exchanges layer handler c s (Problem.respond .internalServerError e.message) s'
      [.get (layer.keyOf c.request)] where
  plain := runs_corrupt hb hget hd
  watched past := runs_corrupt hb (runs_await_watched _ past hget) hd

theorem exchanges_fresh (hb : layer.bypasses c.fromRequest = false)
    (hget : (layer.asked c).Runs s (.ok data) s')
    (hd : Entry.decode data = .ok entry)
    (hf : entry.isFreshAt (unixNow (layer.clock.wall s')) = true) :
    Exchanges layer handler c s entry.toResponse s' [.get (layer.keyOf c.request)] where
  plain := runs_fresh hb hget hd hf
  watched past := runs_fresh hb (runs_await_watched _ past hget) hd hf

theorem exchanges_kept {got : Except CacheError Bytes} {candidate : Option Entry}
    {result : Except CacheError Unit} (hb : layer.bypasses c.fromRequest = false)
    (hget : (layer.asked c).Runs s got s')
    (hm : Missed got (unixNow (layer.clock.wall s')) candidate)
    (hr : (handler c).Runs s' response s'')
    (ha : layer.policy.allowsStatus response.status = true)
    (hset : (layer.await .set (layer.store.set (layer.keyOf c.request)
      (layer.entryOf response (layer.clock.wall s'')).encode layer.policy.staleTtl)).Runs s''
        result s₃) :
    Exchanges layer handler c s (sentOn response) s₃
      [.get (layer.keyOf c.request), .handled c response,
        .set (layer.keyOf c.request) (layer.entryOf response (layer.clock.wall s'')).encode
          layer.policy.staleTtl] where
  plain := runs_missed hb hget hm hr (runs_conclude_kept ha hset)
  watched past := by
    rw [List.append_cons past, List.append_cons (past ++ _)]
    exact runs_missed hb (runs_await_watched _ past hget) hm (runs_watchedHandler _ hr)
      (runs_conclude_kept ha (runs_await_watched _ _ hset))

theorem exchanges_purged {got : Except CacheError Bytes} {candidate : Option Entry}
    {result : Except CacheError Unit} (hb : layer.bypasses c.fromRequest = false)
    (hget : (layer.asked c).Runs s got s')
    (hm : Missed got (unixNow (layer.clock.wall s')) candidate)
    (hr : (handler c).Runs s' response s'')
    (ha : layer.policy.allowsStatus response.status = false)
    (hdel : (layer.await .del (layer.store.del [layer.keyOf c.request])).Runs s'' result s₃) :
    Exchanges layer handler c s (layer.substitute candidate response) s₃
      [.get (layer.keyOf c.request), .handled c response, .del [layer.keyOf c.request]] where
  plain := runs_missed hb hget hm hr (runs_conclude_purged ha hdel)
  watched past := by
    rw [List.append_cons past, List.append_cons (past ++ _)]
    exact runs_missed hb (runs_await_watched _ past hget) hm (runs_watchedHandler _ hr)
      (runs_conclude_purged ha (runs_await_watched _ _ hdel))

end Exchanges

end Caching
end HttpCache
