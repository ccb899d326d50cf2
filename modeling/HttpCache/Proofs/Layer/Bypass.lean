import HttpCache.Layer.Logging
import HttpCache.Proofs.Layer.Caching
import HttpCache.Store.Memory

/-!
# HttpCache.Proofs.Layer.Bypass

Stacks of cache layers and loggers above an endpoint, and the requests that pass all cache layers.

* `Tier`, `Tier.stack`: one layer of such a stack, and the stack.
* `Bypassed`: why a request passes every cache layer of a stack.
* `reaching`: what the endpoint is asked; its request is the one that came in.
* `runs_stack`: the stack does what the endpoint does.
* `runs_of_bypassed`: so does the stack without its cache layers, and no backend is called.
-/

namespace HttpCache

inductive Tier (σ : Type) where
  | cache (layer : Caching σ)
  | logger (app : String)

namespace Tier

open Act (Runs)

variable {σ : Type}

def toLayer : Tier σ → Layer σ
  | cache layer => layer.toLayer
  | logger app => Layer.logging app

def isCache : Tier σ → Bool
  | cache _ => true
  | logger _ => false

/-- The same tier, which writes all calls of its backend into the log. -/
def watched : Tier σ → Tier (Watched σ)
  | cache layer => .cache layer.watched
  | logger app => .logger app

/-- Tiers, the first one outermost, above an endpoint. -/
def stack (tiers : List (Tier σ)) (handler : Context → Act σ Response) : List (Layer σ) :=
  tiers.map toLayer ++ [Layer.endpoint handler]

def withoutCaches (tiers : List (Tier σ)) : List (Tier σ) := tiers.filter fun tier => !tier.isCache

/-- The request is marked when it comes in, or its query turns the cache off, or no cache layer
allows its method. -/
def Bypassed (tiers : List (Tier σ)) (c : Context) : Prop :=
  c.useCache = false ∨ c.request.queryParam? Key.noCacheParam = some "false" ∨
    ∀ layer, cache layer ∈ tiers → layer.policy.allowsMethod c.request.method = false

/-- What comes out below some tiers that a request passes. -/
def reaching : List (Tier σ) → Context → Context
  | [], c => c
  | cache _ :: tiers, c => reaching tiers c.fromRequest
  | logger _ :: tiers, c => reaching tiers c

variable {tiers : List (Tier σ)} {handler : Context → Act σ Response} {c : Context}

/-! ## On the way down -/

theorem request_fromRequest (c : Context) : c.fromRequest.request = c.request := by
  unfold Context.fromRequest
  split
  · exact c.request_withNoCache
  · rfl

theorem request_reaching (tiers : List (Tier σ)) (c : Context) :
    (reaching tiers c).request = c.request := by
  induction tiers generalizing c with
  | nil => rfl
  | cons tier tiers ih =>
    cases tier with
    | cache layer => rw [reaching, ih, request_fromRequest]
    | logger app => exact ih c

/-- All that the cache layers change on the way down is the mark. -/
theorem handler_reaching (hmark : ∀ c, handler c.withNoCache = handler c) (tiers : List (Tier σ))
    (c : Context) : handler (reaching tiers c) = handler c := by
  induction tiers generalizing c with
  | nil => rfl
  | cons tier tiers ih =>
    cases tier with
    | cache layer =>
      rw [reaching, ih, Context.fromRequest]
      split
      · exact hmark c
      · rfl
    | logger app => exact ih c

theorem reaching_watched (tiers : List (Tier σ)) (c : Context) :
    reaching (tiers.map watched) c = reaching tiers c := by
  induction tiers generalizing c with
  | nil => rfl
  | cons tier tiers ih =>
    cases tier with
    | cache layer => exact ih c.fromRequest
    | logger app => exact ih c

theorem Bypassed.bypasses {layer : Caching σ} (h : Bypassed (cache layer :: tiers) c) :
    layer.bypasses c.fromRequest = true := by
  rw [Caching.bypasses, request_fromRequest]
  unfold Context.fromRequest
  rcases h with h | h | h
  · split
    · simp
    · simp [h]
  · simp [h]
  · simp [h layer List.mem_cons_self]

/-- What has passed the first tier passes the others. -/
theorem Bypassed.tail {tier : Tier σ} (h : Bypassed (tier :: tiers) c) :
    Bypassed tiers c ∧ Bypassed tiers c.fromRequest := by
  have hc : Bypassed tiers c :=
    h.imp id (Or.imp id fun h layer hmem => h layer (List.mem_cons_of_mem _ hmem))
  refine ⟨hc, ?_⟩
  rw [Bypassed, request_fromRequest]
  refine hc.imp (fun h => ?_) id
  unfold Context.fromRequest
  split
  · exact c.useCache_withNoCache
  · exact h

theorem Bypassed.watched (h : Bypassed tiers c) : Bypassed (tiers.map watched) c := by
  refine h.imp id (Or.imp id fun h layer hmem => ?_)
  obtain ⟨tier, htier, he⟩ := List.mem_map.mp hmem
  cases tier with
  | cache plain =>
    cases he
    exact h plain htier
  | logger app => cases he

theorem bypassed_withoutCaches (tiers : List (Tier σ)) (c : Context) :
    Bypassed (withoutCaches tiers) c := by
  refine .inr (.inr fun layer hmem => ?_)
  have hno := (List.mem_filter.mp hmem).2
  cases hno

/-! ## The stack -/

/-- By induction on the tiers: a bypassed cache layer and a logger both hand on the answer that
they get. -/
theorem runs_nest_stack {s s' : σ} {response : Response} (h : Bypassed tiers c)
    (hr : (handler (reaching tiers c)).Runs s response s') :
    (Pipeline.nest (stack tiers handler) c).Runs s response s' := by
  induction tiers generalizing c with
  | nil => exact Caching.runs_around_answer (hr.bind (.pure _ _))
  | cons tier tiers ih =>
    cases tier with
    | cache layer => exact Caching.runs_bypassed h.bypasses (ih h.tail.2 hr)
    | logger app =>
      exact Caching.runs_around_forward (.pure _ _) (ih h.tail.1 hr)
        ((Runs.report _ _).bind (.pure _ _))

theorem runs_stack {s s' : σ} {response : Response} (h : Bypassed tiers c)
    (hr : (handler (reaching tiers c)).Runs s response s') :
    (Pipeline.handleFrom (stack tiers handler) 0 c).Runs s response s' := by
  rw [Pipeline.handleFrom_eq_nest, List.drop_zero]
  exact runs_nest_stack h hr

/-- **A bypassed request does not see the cache layers.** Above an endpoint that does not look at
the mark, a stack of cache layers and loggers gives the answer, and leaves the state, that it
would without the cache layers; all that is logged is one answer of the endpoint, to the request
that came in. -/
theorem runs_of_bypassed (tiers : List (Tier σ)) (handler : Context → Act σ Response)
    (hmark : ∀ c, handler c.withNoCache = handler c) {c : Context} (h : Bypassed tiers c) (s : σ) :
    (Pipeline.handleFrom (stack tiers handler) 0 c).Runs s (handler c s).value
        (handler c s).state ∧
      (Pipeline.handleFrom (stack (withoutCaches tiers) handler) 0 c).Runs s (handler c s).value
        (handler c s).state ∧
      ∃ asked, asked.request = c.request ∧ ∀ past,
        (Pipeline.handleFrom (stack (tiers.map watched) (watchedHandler handler)) 0 c).Runs
          ⟨s, past⟩ (handler c s).value
          ⟨(handler c s).state, past ++ [.handled asked (handler c s).value]⟩ := by
  have hr : ∀ tiers : List (Tier σ),
      (handler (reaching tiers c)).Runs s (handler c s).value (handler c s).state := by
    intro tiers
    rw [handler_reaching hmark]
    exact Runs.self _ s
  refine ⟨runs_stack h (hr _), runs_stack (bypassed_withoutCaches tiers c) (hr _),
    reaching tiers c, request_reaching tiers c, fun past => runs_stack h.watched ?_⟩
  rw [reaching_watched]
  exact runs_watchedHandler past (hr tiers)

/-- A query that turns the cache off, spelled with an escape and after another value, in front of
two cache layers over one memory. -/
theorem runs_of_escaped_query :
    Bypassed
        [.cache (.make ⟨fun _ => 1000, Memory.elapse⟩ .memory .default), .logger "app",
          .cache (.make ⟨fun _ => 1000, Memory.elapse⟩ .memory .default)]
        (Context.ofRequest (.ofTarget .get "/a?cache=true&cache=f%61lse")) ∧
      (Pipeline.handleFrom
        (stack
          [.cache (.make ⟨fun _ => 1000, Memory.elapse⟩ .memory .default), .logger "app",
            .cache (.make ⟨fun _ => 1000, Memory.elapse⟩ .memory .default)]
          fun c => pure (.ofText .ok c.request.path)) 0
        (.ofRequest (.ofTarget .get "/a?cache=true&cache=f%61lse"))).Runs (Memory.empty 8)
          (.ofText .ok (Request.ofTarget .get "/a?cache=true&cache=f%61lse").path)
          (Memory.empty 8) := by
  have hquery : (Request.ofTarget .get "/a?cache=true&cache=f%61lse").queryParam?
      Key.noCacheParam = some "false" := by decide +kernel
  have hb : Bypassed
      [.cache (.make ⟨fun _ => 1000, Memory.elapse⟩ .memory .default), .logger "app",
        .cache (.make ⟨fun _ => 1000, Memory.elapse⟩ .memory .default)]
      (Context.ofRequest (.ofTarget .get "/a?cache=true&cache=f%61lse")) := .inr (.inl hquery)
  exact ⟨hb, (runs_of_bypassed _ _ (fun _ => rfl) hb (Memory.empty 8)).1⟩

end Tier
end HttpCache
