import HttpCache.Layer.Caching
import HttpCache.Proofs.Act

/-!
# HttpCache.Proofs.Layer.Watched

A cache layer whose every step outwards is written down.

* `Interaction` — a call of the backend, as it is made, or an answer of the layers below.
* `Watched σ` — a state together with the log so far.
* `Caching.watched`, `watchedHandler` — the same layer, and the same layers below it, keeping the
  log. What they do to the state does not depend on it (`runs_await_watched`,
  `runs_watchedHandler`).
-/

namespace HttpCache

/-- What passes between a cache layer and its surroundings. -/
inductive Interaction where
  | get (key : String)
  | set (key : String) (data : Bytes) (ttl : Span)
  | del (keys : List String)
  /-- The layers below were asked, and gave an answer. -/
  | handled (context : Context) (response : Response)

structure Watched (σ : Type) where
  state : σ
  log : List Interaction

variable {σ α : Type}

namespace Watched

def part : Part (Watched σ) σ := ⟨Watched.state, fun s w => { w with state := s }⟩

def note (i : Interaction) : Act (Watched σ) Unit := .change fun w => { w with log := w.log ++ [i] }

end Watched

/-- A call that is noted when it is made, whether or not its end is awaited. -/
def Call.watched (i : Interaction) (call : Call σ α) : Call (Watched σ) α where
  start := do
    Watched.note i
    call.start.on Watched.part
  finish := call.finish.on Watched.part

def Store.watched (store : Store σ) : Store (Watched σ) where
  get key := (store.get key).watched (.get key)
  set key data ttl := (store.set key data ttl).watched (.set key data ttl)
  del keys := (store.del keys).watched (.del keys)

def Clock.watched (clock : Clock σ) : Clock (Watched σ) where
  wall w := clock.wall w.state
  elapse span w := { w with state := clock.elapse span w.state }

def Caching.watched (layer : Caching σ) : Caching (Watched σ) :=
  ⟨layer.clock.watched, layer.store.watched, layer.policy⟩

def watchedHandler (handler : Context → Act σ Response) : Context → Act (Watched σ) Response :=
  fun c => do
    let response ← (handler c).on Watched.part
    Watched.note (.handled c response)
    pure response

/-! ## Keeping the log changes nothing else -/

theorem within_watched (clock : Clock σ) (limit : Option Span) (operation : Operation)
    (i : Interaction) (call : Call σ α) (s : σ) (log : List Interaction) :
    (call.watched i).within clock.watched limit operation ⟨s, log⟩ =
      ⟨(call.within clock limit operation s).value,
        ⟨(call.within clock limit operation s).state, log ++ [i]⟩,
        (call.within clock limit operation s).events⟩ := by
  have wait_watched : ∀ span t, Call.wait clock.watched span ⟨t, log ++ [i]⟩ =
      ⟨(), ⟨(Call.wait clock span t).state, log ++ [i]⟩, (Call.wait clock span t).events⟩ := by
    intro span t
    simp only [Call.wait]
    split <;> rfl
  have start_watched : (call.watched i).start ⟨s, log⟩ =
      ⟨(call.start s).value, ⟨(call.start s).state, log ++ [i]⟩, (call.start s).events⟩ := rfl
  have finish_watched : ∀ t, (call.watched i).finish ⟨t, log ++ [i]⟩ =
      ⟨(call.finish t).value, ⟨(call.finish t).state, log ++ [i]⟩, (call.finish t).events⟩ :=
    fun t => rfl
  cases limit with
  | none =>
    simp only [Call.within, Call.run, Act.bind_apply, start_watched, wait_watched, finish_watched]
  | some limit =>
    simp only [Call.within, Act.bind_apply, start_watched]
    by_cases h : limit < (call.start s).value
    · simp only [if_pos h, Act.bind_apply, wait_watched, Act.pure_apply]
    · simp only [if_neg h, Act.bind_apply, wait_watched, finish_watched]

theorem runs_await_watched {layer : Caching σ} {operation : Operation} {call : Call σ α}
    {s s' : σ} {result : Except CacheError α} (i : Interaction) (log : List Interaction)
    (h : (layer.await operation call).Runs s result s') :
    (layer.watched.await operation (call.watched i)).Runs ⟨s, log⟩ result ⟨s', log ++ [i]⟩ := by
  obtain ⟨events, h⟩ := h
  rw [Caching.await] at h
  exact ⟨events, by rw [Caching.await, Caching.watched, within_watched, h]⟩

theorem runs_watchedHandler {handler : Context → Act σ Response} {c : Context} {s s' : σ}
    {response : Response} (log : List Interaction) (h : (handler c).Runs s response s') :
    (watchedHandler handler c).Runs ⟨s, log⟩ response ⟨s', log ++ [.handled c response]⟩ := by
  have hon : ((handler c).on Watched.part).Runs ⟨s, log⟩ response ⟨s', log⟩ := .on h
  exact hon.bind ((Act.Runs.change _ _).bind (.pure _ _))

end HttpCache
