import HttpCache.Proofs.Layer.Caching
import HttpCache.Store.Memory

/-!
# HttpCache.Proofs.Layer.Contract

What a cache layer owes to one request, whatever the backend, the clock and the layers below do.

* `Keeps` — what is stored of an answer.
* `Chosen` — what stands in for an answer that is not stored.
* `Contract` — the four ways of a request that is not bypassed.
* `contract_of_not_bypassed` — the layer keeps its contract.
-/

namespace HttpCache
namespace Caching

open Act (Runs)
open Entry (Renders)

variable {σ : Type}

/-- The data hold all of an answer, fresh from a time of the wall clock for the layer's time to
live. -/
structure Keeps (layer : Caching σ) (response : Response) (wall : Int) (data : Bytes)
    (entry : Entry) : Prop where
  decodes : Entry.decode data = .ok entry
  status : entry.status? = .ok response.status
  headers : entry.headers = response.headers
  body : entry.body = response.body
  expiration : entry.expiration.toInt =
    min (unixNow wall + layer.policy.ttl.seconds) maxSeconds

theorem keeps_entryOf (layer : Caching σ) (response : Response) (wall : Int) :
    Keeps layer response wall (layer.entryOf response wall).encode
      (layer.entryOf response wall) where
  decodes := Entry.decode_encode_of_status (Entry.status?_make ..)
  status := Entry.status?_make ..
  headers := rfl
  body := rfl
  expiration := Entry.expiration_make ..

/-- The answer to a request whose own answer is not stored: the stored response if there is one
and a failed answer may be replaced by it, and otherwise that answer itself. -/
inductive Chosen (layer : Caching σ) (response : Response) : Option Entry → Response → Prop where
  | stored {entry : Entry} {status : Status} {answer : Response}
      (htrigger : layer.policy.useStale = true ∧ response.status ∈ layer.policy.staleStatuses)
      (hstatus : entry.status? = .ok status)
      (hanswer : Renders status entry.headers entry.body answer) :
      Chosen layer response (some entry) answer
  | own {candidate : Option Entry}
      (hown : candidate = none ∨
        ¬(layer.policy.useStale = true ∧ response.status ∈ layer.policy.staleStatuses)) :
      Chosen layer response candidate (sentOn response)

theorem isStaleTrigger_iff (layer : Caching σ) (status : Status) :
    layer.policy.isStaleTrigger status = true ↔
      layer.policy.useStale = true ∧ status ∈ layer.policy.staleStatuses := by
  simp [Policy.isStaleTrigger]

theorem chosen_substitute {layer : Caching σ} {response : Response} {candidate : Option Entry}
    (h : ∀ entry ∈ candidate, ∃ status, entry.status? = .ok status) :
    Chosen layer response candidate (layer.substitute candidate response) := by
  cases candidate with
  | none => exact .own (.inl rfl)
  | some entry =>
    by_cases ht : layer.policy.isStaleTrigger response.status = true
    · obtain ⟨status, hstatus⟩ := h entry rfl
      simp only [substitute, Option.filter_some, ht, if_true]
      exact .stored ((isStaleTrigger_iff _ _).mp ht) hstatus (Entry.renders_replay hstatus _)
    · simp only [substitute, Option.filter_some, ht, Bool.false_eq_true, if_false]
      exact .own (.inr fun h => ht ((isStaleTrigger_iff _ _).mpr h))

theorem Missed.status? {got : Except CacheError Bytes} {now : Int} {candidate : Option Entry}
    (h : Missed got now candidate) : ∀ entry ∈ candidate, ∃ status, entry.status? = .ok status := by
  cases h with
  | failed e now =>
    intro entry hentry
    cases hentry
  | stale hd hs =>
    intro entry hentry
    cases hentry
    exact Entry.status?_of_decode hd

/-- What the layers below are asked for when the backend has nothing fresh. -/
def handed (layer : Caching σ) (handler : Context → Act σ Response) (c : Context) (s : σ) :
    Outcome σ Response := handler c (layer.asked c s).state

/-- What a layer owes to a request that is not bypassed. Each way gives the answer and all
interactions in order, the first of which is the one look at the key of the request. -/
structure Contract (layer : Caching σ) (handler : Context → Act σ Response) (c : Context)
    (s : σ) : Prop where
  /-- A value that is no entry is answered with an internal error in JSON, for some text. -/
  corrupt : ∀ data e, (layer.asked c s).value = .ok data → Entry.decode data = .error e →
    ∃ text, Exchanges layer handler c s (Problem.respond .internalServerError text)
      (layer.asked c s).state [.get (layer.keyOf c.request)]
  /-- A fresh entry is the answer. -/
  fresh : ∀ data entry, (layer.asked c s).value = .ok data → Entry.decode data = .ok entry →
    unixNow (layer.clock.wall (layer.asked c s).state) < entry.expiration.toInt →
    ∃ status answer, entry.status? = .ok status ∧
      Renders status entry.headers entry.body answer ∧
      Exchanges layer handler c s answer (layer.asked c s).state [.get (layer.keyOf c.request)]
  /-- An answer with an allowed status is stored and sent on. -/
  kept : ∀ candidate,
    Missed (layer.asked c s).value (unixNow (layer.clock.wall (layer.asked c s).state)) candidate →
    (layer.handed handler c s).value.status ∈ layer.policy.allowedStatuses →
    ∃ data entry s', Keeps layer (layer.handed handler c s).value
        (layer.clock.wall (layer.handed handler c s).state) data entry ∧
      Exchanges layer handler c s (sentOn (layer.handed handler c s).value) s'
        [.get (layer.keyOf c.request), .handled c (layer.handed handler c s).value,
          .set (layer.keyOf c.request) data layer.policy.staleTtl]
  /-- Any other answer purges the key. -/
  purged : ∀ candidate,
    Missed (layer.asked c s).value (unixNow (layer.clock.wall (layer.asked c s).state)) candidate →
    (layer.handed handler c s).value.status ∉ layer.policy.allowedStatuses →
    ∃ answer s', Chosen layer (layer.handed handler c s).value candidate answer ∧
      Exchanges layer handler c s answer s'
        [.get (layer.keyOf c.request), .handled c (layer.handed handler c s).value,
          .del [layer.keyOf c.request]]

/-- **A cache layer keeps its contract**: for any backend, any clock and any layers below, a
request that is not bypassed goes one of the four ways. -/
theorem contract_of_not_bypassed (layer : Caching σ) (handler : Context → Act σ Response)
    {c : Context} (s : σ) (hb : layer.bypasses c.fromRequest = false) :
    Contract layer handler c s := by
  have hasked := Runs.self (layer.asked c) s
  have hhanded : (handler c).Runs (layer.asked c s).state (layer.handed handler c s).value
      (layer.handed handler c s).state := Runs.self _ _
  constructor
  case corrupt =>
    intro data e hgot hd
    rw [hgot] at hasked
    exact ⟨e.message, exchanges_corrupt hb hasked hd⟩
  case fresh =>
    intro data entry hgot hd hf
    rw [hgot] at hasked
    obtain ⟨status, hstatus⟩ := Entry.status?_of_decode hd
    exact ⟨status, entry.toResponse, hstatus, Entry.renders_replay hstatus .keep,
      exchanges_fresh hb hasked hd (by simpa [Entry.isFreshAt] using hf)⟩
  case kept =>
    intro candidate hm ha
    have hset := Runs.self (layer.await .set (layer.store.set (layer.keyOf c.request)
      (layer.entryOf (layer.handed handler c s).value
        (layer.clock.wall (layer.handed handler c s).state)).encode layer.policy.staleTtl))
      (layer.handed handler c s).state
    exact ⟨_, _, _, keeps_entryOf layer _ _,
      exchanges_kept hb hasked hm hhanded (by simpa [Policy.allowsStatus] using ha) hset⟩
  case purged =>
    intro candidate hm ha
    have hdel := Runs.self (layer.await .del (layer.store.del [layer.keyOf c.request]))
      (layer.handed handler c s).state
    exact ⟨_, _, chosen_substitute hm.status?,
      exchanges_purged hb hasked hm hhanded (by simpa [Policy.allowsStatus] using ha) hdel⟩

/-- A memory without values: the request reaches the layers below, and their answer is kept. -/
theorem contract_of_empty_memory :
    (make ⟨fun _ => 1000, Memory.elapse⟩ .memory .default).bypasses
        (Context.ofRequest (.ofTarget .get "/items?apiKey=x")).fromRequest = false ∧
      ∃ data entry s',
        Keeps (make ⟨fun _ => 1000, Memory.elapse⟩ .memory .default) (.ofText .ok "two") 1000 data
          entry ∧
        Exchanges (make ⟨fun _ => 1000, Memory.elapse⟩ .memory .default)
          (fun _ => pure (.ofText .ok "two")) (.ofRequest (.ofTarget .get "/items?apiKey=x"))
          (Memory.empty 8) (.ofText .ok "two") s'
          [.get "/items",
            .handled (.ofRequest (.ofTarget .get "/items?apiKey=x")) (.ofText .ok "two"),
            .set "/items" data (.ofSeconds 86400)] := by
  have hb : (make ⟨fun _ => 1000, Memory.elapse⟩ .memory .default).bypasses
      (Context.ofRequest (.ofTarget .get "/items?apiKey=x")).fromRequest = false := by decide +kernel
  have hkey : Key.ofRequest "" (.ofTarget .get "/items?apiKey=x") = "/items" := by decide +kernel
  have hkept := (contract_of_not_bypassed _ (fun _ => pure (.ofText .ok "two"))
    (Memory.empty 8) hb).kept none (.failed _ _) (by decide)
  refine ⟨hb, ?_⟩
  rw [← hkey]
  exact hkept

end Caching
end HttpCache
