import HttpCache.Proofs.Layer.Caching
import HttpCache.Proofs.Store.Memory

/-!
# HttpCache.Proofs.Layer.Site

A cache layer over a memory that nothing else uses, and the requests that arrive there.

* `Site` — the policy, the wall clock and the layers below; these work on everything that is
  outside the memory, and may do there what they like.
* `Arrival` — a request, with what happens since the one before it.
* `Site.visit`, `Site.reached` — one request, and all of them in order, from an empty memory.
* `runs_asked`, `runs_set`, `runs_del`, `runs_answer` — what each step does to the memory.
* `Site.Goes`, `goes_attend` — the five ways of a request, with all that it does to the memory.
* `Site.course`, `runs_visit` — the one that it goes.
* `Site.passed`, `Site.answers` — what some requests leave, and how they are answered.
-/

namespace HttpCache

variable {τ : Type}

/-- A memory that one layer has to itself, and everything else. -/
structure Housed (τ : Type) where
  memory : Memory
  outside : τ

namespace Housed

def memoryPart : Part (Housed τ) Memory := ⟨memory, fun m h => { h with memory := m }⟩

def outsidePart : Part (Housed τ) τ := ⟨outside, fun o h => { h with outside := o }⟩

def elapse (span : Span) (h : Housed τ) : Housed τ := { h with memory := h.memory.elapse span }

end Housed

structure Site (τ : Type) where
  policy : Policy
  /-- The wall clock in Unix seconds. -/
  wall : τ → Int
  /-- What waiting does outside. -/
  elapse : Span → τ → τ
  /-- The layers below: their answer, and the time that they take for it. -/
  handler : Context → Act τ (Response × Span)

structure Arrival (τ : Type) where
  context : Context
  /-- The time since the request before. -/
  pause : Span
  /-- What happens outside in that time. -/
  meanwhile : τ → τ

/-- What a request meets when it arrives. -/
def Arrival.meets (a : Arrival τ) (h : Housed τ) : Housed τ :=
  ⟨h.memory.elapse a.pause, a.meanwhile h.outside⟩

namespace Site

open Act (Runs)

def clock (site : Site τ) : Clock (Housed τ) where
  wall h := site.wall h.outside
  elapse span h := ⟨h.memory.elapse span, site.elapse span h.outside⟩

def layer (site : Site τ) : Caching (Housed τ) :=
  .make site.clock (Store.memory.on Housed.memoryPart) site.policy

/-- The layers below, as they look from the cache layer: all that they do to the memory is to let
time pass. -/
def answer (site : Site τ) : Context → Act (Housed τ) Response := fun c => do
  let (response, span) ← (site.handler c).on Housed.outsidePart
  .change (Housed.elapse span)
  pure response

def visit (site : Site τ) (a : Arrival τ) : Act (Watched (Housed τ)) Response := do
  .change fun w => { w with state := a.meets w.state }
  site.layer.watched.toLayer.around (watchedHandler site.answer) a.context

/-- What an empty memory becomes, with the log of all that happened, after some requests. -/
def reached (site : Site τ) (capacity : Nat) (outside : τ) (arrivals : List (Arrival τ)) :
    Watched (Housed τ) :=
  arrivals.foldl (fun w a => (site.visit a w).state) ⟨⟨.empty capacity, outside⟩, []⟩

theorem reached_append (site : Site τ) (capacity : Nat) (outside : τ)
    (arrivals : List (Arrival τ)) (a : Arrival τ) :
    site.reached capacity outside (arrivals ++ [a]) =
      (site.visit a (site.reached capacity outside arrivals)).state := by
  simp only [reached, List.foldl_append, List.foldl_cons, List.foldl_nil]

variable {site : Site τ} {c : Context}

/-! ## What the steps of the layer do to the memory -/

section Steps

variable (site : Site τ) (h : Housed τ)

/-- A call of the memory takes no time, and touches nothing outside. -/
theorem runs_await {α : Type} (operation : Operation) (x : Act Memory (Except CacheError α)) :
    (site.layer.await operation ((Call.immediate x).on Housed.memoryPart)).Runs h
      (x h.memory).value { h with memory := (x h.memory).state } := by
  rw [Caching.await, Call.immediate_on Housed.memoryPart fun _ => rfl, Call.within_immediate]
  exact Runs.self _ _

theorem runs_asked (c : Context) :
    (site.layer.asked c).Runs h
      (Memory.fetch (site.layer.keyOf c.request) h.memory).value
      { h with memory := (Memory.fetch (site.layer.keyOf c.request) h.memory).state } :=
  runs_await site h .get _

theorem runs_set (key : String) (data : Bytes) (ttl : Span) :
    (site.layer.await .set (site.layer.store.set key data ttl)).Runs h (.ok ())
      { h with memory := (Memory.keep key data ttl h.memory).state } :=
  runs_await site h .set _

theorem runs_del (keys : List String) :
    (site.layer.await .del (site.layer.store.del keys)).Runs h (.ok ())
      { h with memory := (Memory.drop keys h.memory).state } :=
  runs_await site h .del _

@[simp] theorem value_answer (c : Context) :
    (site.answer c h).value = (site.handler c h.outside).value.1 := rfl

@[simp] theorem state_answer (c : Context) :
    (site.answer c h).state =
      ⟨h.memory.elapse (site.handler c h.outside).value.2, (site.handler c h.outside).state⟩ := rfl

theorem runs_answer (c : Context) :
    ∃ response span outside,
      (site.answer c).Runs h response ⟨h.memory.elapse span, outside⟩ :=
  ⟨_, _, _, Runs.self _ h⟩

theorem state_visit {a : Arrival τ} {w : Watched (Housed τ)} {answer : Response} {h' : Housed τ}
    {log : List Interaction}
    (h : site.layer.Exchanges site.answer a.context (a.meets w.state) answer h' log) :
    (site.visit a).Runs w answer ⟨h', w.log ++ log⟩ :=
  (Runs.change _ _).bind (h.watched w.log)

end Steps

/-! ## The ways of a request -/

/-- One request, with a log of its own. -/
def attend (site : Site τ) (a : Arrival τ) (h : Housed τ) : Outcome (Watched (Housed τ)) Response :=
  site.visit a ⟨h, []⟩

/-- What is found under the key of a request. -/
abbrev look (site : Site τ) (c : Context) (h : Housed τ) :
    Outcome Memory (Except CacheError Bytes) :=
  Memory.fetch (site.layer.keyOf c.request) h.memory

/-- How a request goes: the answer, what is left of the site's state, and the log. -/
inductive Goes (site : Site τ) (c : Context) (h : Housed τ) :
    Response → Housed τ → List Interaction → Prop where
  | bypassed (hb : site.layer.bypasses c.fromRequest = true) (own : Response) (span : Span)
      (outside : τ) :
      Goes site c h own ⟨h.memory.elapse span, outside⟩ [.handled c.fromRequest own]
  | corrupt {data : Bytes} {e : EntryError} (hb : site.layer.bypasses c.fromRequest = false)
      (hget : (site.look c h).value = .ok data) (hd : Entry.decode data = .error e) :
      Goes site c h (Problem.respond .internalServerError e.message)
        { h with memory := (site.look c h).state } [.get (site.layer.keyOf c.request)]
  | fresh {data : Bytes} {entry : Entry} (hb : site.layer.bypasses c.fromRequest = false)
      (hget : (site.look c h).value = .ok data) (hd : Entry.decode data = .ok entry)
      (hf : entry.isFreshAt (unixNow (site.wall h.outside)) = true) :
      Goes site c h entry.toResponse
        { h with memory := (site.look c h).state } [.get (site.layer.keyOf c.request)]
  | kept {candidate : Option Entry} {own : Response}
      (hb : site.layer.bypasses c.fromRequest = false)
      (hm : Caching.Missed (site.look c h).value (unixNow (site.wall h.outside)) candidate)
      (ha : site.layer.policy.allowsStatus own.status = true) (span : Span) (outside : τ) :
      Goes site c h (Caching.sentOn own)
        ⟨(Memory.keep (site.layer.keyOf c.request)
            (site.layer.entryOf own (site.wall outside)).encode site.layer.policy.staleTtl
            ((site.look c h).state.elapse span)).state, outside⟩
        [.get (site.layer.keyOf c.request), .handled c own,
          .set (site.layer.keyOf c.request)
            (site.layer.entryOf own (site.wall outside)).encode site.layer.policy.staleTtl]
  | purged {candidate : Option Entry} {own : Response}
      (hb : site.layer.bypasses c.fromRequest = false)
      (hm : Caching.Missed (site.look c h).value (unixNow (site.wall h.outside)) candidate)
      (ha : site.layer.policy.allowsStatus own.status = false) (span : Span) (outside : τ) :
      Goes site c h (site.layer.substitute candidate own)
        ⟨(Memory.drop [site.layer.keyOf c.request] ((site.look c h).state.elapse span)).state,
          outside⟩
        [.get (site.layer.keyOf c.request), .handled c own, .del [site.layer.keyOf c.request]]

/-- A request that is over: the answer, what is left of the site's state, and the log. -/
structure Course (τ : Type) where
  answer : Response
  after : Housed τ
  log : List Interaction

/-- The end of a request for which nothing fresh was found. -/
def concluded (site : Site τ) (c : Context) (candidate : Option Entry) (h : Housed τ) :
    Course τ :=
  let key := site.layer.keyOf c.request
  let own := (site.answer c h).value
  let asked := (site.answer c h).state
  if site.layer.policy.allowsStatus own.status then
    let data := (site.layer.entryOf own (site.wall asked.outside)).encode
    ⟨Caching.sentOn own,
      ⟨(Memory.keep key data site.layer.policy.staleTtl asked.memory).state, asked.outside⟩,
      [.get key, .handled c own, .set key data site.layer.policy.staleTtl]⟩
  else
    ⟨site.layer.substitute candidate own, ⟨(Memory.drop [key] asked.memory).state, asked.outside⟩,
      [.get key, .handled c own, .del [key]]⟩

/-- What is made of a look at the key: an answer, or a candidate to stand in for a failed one. -/
def verdict (got : Except CacheError Bytes) (now : Int) : Response ⊕ Option Entry :=
  match got with
  | .error _ => .inr none
  | .ok data =>
    match Entry.decode data with
    | .error e => .inl (Problem.respond .internalServerError e.message)
    | .ok entry => if entry.isFreshAt now then .inl entry.toResponse else .inr (some entry)

/-- How the request goes, worked out from what the layers below do. -/
def course (site : Site τ) (c : Context) (h : Housed τ) : Course τ :=
  if site.layer.bypasses c.fromRequest then
    ⟨(site.answer c.fromRequest h).value, (site.answer c.fromRequest h).state,
      [.handled c.fromRequest (site.answer c.fromRequest h).value]⟩
  else
    let looked : Housed τ := { h with memory := (site.look c h).state }
    match verdict (site.look c h).value (unixNow (site.wall h.outside)) with
    | .inl answer => ⟨answer, looked, [.get (site.layer.keyOf c.request)]⟩
    | .inr candidate => site.concluded c candidate looked

/-- The request goes this course: it is one of the ways, and all of it passes between the layer and
its surroundings. -/
structure Proceeds (site : Site τ) (c : Context) (h : Housed τ) (r : Course τ) : Prop where
  goes : Goes site c h r.answer r.after r.log
  exchanges : site.layer.Exchanges site.answer c h r.answer r.after r.log

theorem proceeds_concluded {h : Housed τ} {candidate : Option Entry}
    (hb : site.layer.bypasses c.fromRequest = false)
    (hm : Caching.Missed (site.look c h).value (unixNow (site.wall h.outside)) candidate) :
    site.Proceeds c h (site.concluded c candidate { h with memory := (site.look c h).state }) := by
  have hasked := runs_asked site h c
  have hr := Runs.self (site.answer c) { h with memory := (site.look c h).state }
  cases ha : site.layer.policy.allowsStatus
      (site.answer c { h with memory := (site.look c h).state }).value.status with
  | true =>
    simp only [concluded, ha, if_true]
    exact ⟨.kept hb hm ha _ _, Caching.exchanges_kept hb hasked hm hr ha (runs_set site _ _ _ _)⟩
  | false =>
    simp only [concluded, ha, Bool.false_eq_true, if_false]
    exact ⟨.purged hb hm ha _ _, Caching.exchanges_purged hb hasked hm hr ha (runs_del site _ _)⟩

theorem proceeds_course (site : Site τ) (c : Context) (h : Housed τ) :
    site.Proceeds c h (site.course c h) := by
  cases hb : site.layer.bypasses c.fromRequest with
  | true =>
    simp only [course, hb, if_true]
    exact ⟨.bypassed hb _ _ _, Caching.exchanges_bypassed hb (Runs.self _ _)⟩
  | false =>
    have hasked := runs_asked site h c
    simp only [course, hb, Bool.false_eq_true, if_false]
    cases hget : (site.look c h).value with
    | error e => exact proceeds_concluded hb (hget.symm ▸ Caching.Missed.failed e _)
    | ok data =>
      rw [hget] at hasked
      cases hd : Entry.decode data with
      | error e =>
        simp only [verdict, hd]
        exact ⟨.corrupt hb hget hd, Caching.exchanges_corrupt hb hasked hd⟩
      | ok entry =>
        by_cases hf : entry.isFreshAt (unixNow (site.wall h.outside)) = true
        · simp only [verdict, hd, if_pos hf]
          exact ⟨.fresh hb hget hd hf, Caching.exchanges_fresh hb hasked hd hf⟩
        · have hstale : entry.expiration.toInt ≤ unixNow (site.wall h.outside) := by
            simpa [Entry.isFreshAt] using hf
          simp only [verdict, hd, if_neg hf]
          exact proceeds_concluded hb (hget.symm ▸ Caching.Missed.stale hd hstale)

/-- A request adds to the log what it does by itself. -/
theorem runs_visit (site : Site τ) (a : Arrival τ) (w : Watched (Housed τ)) :
    (site.visit a).Runs w (site.course a.context (a.meets w.state)).answer
      ⟨(site.course a.context (a.meets w.state)).after,
        w.log ++ (site.course a.context (a.meets w.state)).log⟩ :=
  state_visit site (proceeds_course site a.context (a.meets w.state)).exchanges

section Attend

variable (site : Site τ) (a : Arrival τ) (h : Housed τ)

theorem value_attend :
    (site.attend a h).value = (site.course a.context (a.meets h)).answer :=
  (runs_visit site a ⟨h, []⟩).value

theorem state_attend :
    (site.attend a h).state =
      ⟨(site.course a.context (a.meets h)).after, (site.course a.context (a.meets h)).log⟩ :=
  (runs_visit site a ⟨h, []⟩).state

theorem after_attend :
    (site.attend a h).state.state = (site.course a.context (a.meets h)).after := by
  rw [state_attend]

theorem goes_attend :
    Goes site a.context (a.meets h) (site.attend a h).value (site.attend a h).state.state
      (site.attend a h).state.log := by
  rw [value_attend, state_attend]
  exact (proceeds_course site a.context (a.meets h)).goes

end Attend

/-! ## Runs -/

theorem reached_snoc (site : Site τ) (capacity : Nat) (outside : τ) (before : List (Arrival τ))
    (a : Arrival τ) :
    site.reached capacity outside (before ++ [a]) =
      ⟨(site.attend a (site.reached capacity outside before).state).state.state,
        (site.reached capacity outside before).log ++
          (site.attend a (site.reached capacity outside before).state).state.log⟩ := by
  rw [reached_append, (runs_visit site a _).state, state_attend]

/-- What is left after some requests. -/
def passed (site : Site τ) (arrivals : List (Arrival τ)) (h : Housed τ) : Housed τ :=
  arrivals.foldl (fun h a => (site.attend a h).state.state) h

/-- The answers to some requests, in order. -/
def answers (site : Site τ) : List (Arrival τ) → Housed τ → List Response
  | [], _ => []
  | a :: arrivals, h =>
    (site.attend a h).value :: answers site arrivals (site.attend a h).state.state

theorem answers_append (first second : List (Arrival τ)) (h : Housed τ) :
    site.answers (first ++ second) h =
      site.answers first h ++ site.answers second (site.passed first h) := by
  induction first generalizing h with
  | nil => rfl
  | cons a first ih => exact congrArg _ (ih _)

theorem length_answers (arrivals : List (Arrival τ)) (h : Housed τ) :
    (site.answers arrivals h).length = arrivals.length := by
  induction arrivals generalizing h with
  | nil => rfl
  | cons a arrivals ih => exact congrArg _ (ih _)

end Site
end HttpCache
