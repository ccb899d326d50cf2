import HttpCache.Proofs.Layer.Lifecycle

/-!
# HttpCache.Proofs.Layer.Repeat

The request whose answer was stored once more, before either clock has moved.

* `Policy.Lasting` — the time to live is not given, or it is one second at least.
* `Policy.lasting_iff` — after normalization at least one of its whole seconds is left.
* `Entry.isFreshAt_make_iff` — an entry is fresh when it is made if its time to live has a whole
  second; what is below a second is no time at all.
* `Site.Repeats` — the request comes a second time.
* `answered_at_once` — the second time is a hit just under a lasting policy.
-/

namespace HttpCache

/-! ## The time to live -/

namespace Policy

/-- The time to live is not given, or it is one second at least. -/
def Lasting (p : Policy) : Prop := p.ttl = .zero ∨ .ofSeconds 1 ≤ p.ttl

instance (p : Policy) : Decidable p.Lasting :=
  inferInstanceAs (Decidable (p.ttl = .zero ∨ .ofSeconds 1 ≤ p.ttl))

theorem lasting_iff {p : Policy} : p.Lasting ↔ 0 < p.normalized.ttl.seconds := by
  have hle : Span.ofSeconds 1 ≤ p.ttl ↔ 0 < p.ttl.seconds := by
    have hnanos : Span.ofSeconds 1 ≤ p.ttl ↔ 1 * 1000000000 ≤ p.ttl.nanos := Iff.rfl
    rw [hnanos, Span.seconds]
    omega
  by_cases hzero : p.ttl = .zero
  · simp [Lasting, normalized, orSpan, hzero, Policy.default]
  · simp [Lasting, normalized, orSpan, hzero, hle]

theorem zero_lt_staleTtl (p : Policy) : Span.zero < p.normalized.staleTtl := by
  by_cases hzero : p.staleTtl = .zero
  · simp only [normalized, orSpan, hzero, if_true]
    decide
  · simp only [normalized, orSpan, hzero, if_false]
    exact Nat.pos_of_ne_zero fun hnanos => hzero (congrArg Span.mk hnanos)

end Policy

theorem Entry.isFreshAt_make_iff {headers : Headers} {body : Bytes} {status : Status} {ttl : Span}
    {wall : Int} :
    (Entry.make headers body status ttl wall).isFreshAt (unixNow wall) = true ↔
      0 < ttl.seconds ∧ wall < maxSeconds := by
  simp only [isFreshAt, decide_eq_true_iff, expiration_make, expirationAt, unixNow, maxSeconds]
  omega

/-! ## The second time -/

namespace Site

open Caching
open Entry (Renders)

variable {τ : Type} {site : Site τ} {c : Context} {h h' : Housed τ} {key : String}
variable {answer response : Response} {log : List Interaction}

theorem Goes.of_stored {data : Bytes} {ttl : Span} (hg : Goes site c h answer h' log)
    (hlog : log = [.get key, .handled c response, .set key data ttl]) :
    site.layer.bypasses c.fromRequest = false ∧ site.layer.keyOf c.request = key := by
  cases hg with
  | kept hb =>
    cases hlog
    exact ⟨hb, rfl⟩
  | _ => cases hlog

/-- The request of `a` comes again with `b` after its answer was stored, at the same readings of
both clocks. -/
structure Repeats (site : Site τ) (h : Housed τ) (a b : Arrival τ) (key : String)
    (response : Response) : Prop where
  stored : site.Stores a h key response
  context : b.context = a.context
  wall : site.wall (b.meets (site.attend a h).state.state).outside =
    site.wall (site.attend a h).state.state.outside
  now : (b.meets (site.attend a h).state.state).memory.now =
    (site.attend a h).state.state.memory.now

/-- What is stored is alive and found, and it is a hit if it is fresh. -/
theorem Goes.at_once {m : Memory} (hg : Goes site c h answer h' log)
    (hb : site.layer.bypasses c.fromRequest = false)
    (hfound : h.memory.values.find? (site.layer.keyOf c.request) =
      some ⟨(site.layer.entryOf response (site.wall h.outside)).encode,
        m.deadline site.layer.policy.staleTtl⟩)
    (hnow : h.memory.now = m.now) :
    if site.policy.Lasting ∧ site.wall h.outside < maxSeconds then
      log = [.get (site.layer.keyOf c.request)] ∧
        Renders response.status response.headers response.body answer
    else ∃ own, site.Asked c own log := by
  have hkeeps := keeps_entryOf site.layer response (site.wall h.outside)
  have hlive : (⟨(site.layer.entryOf response (site.wall h.outside)).encode,
      m.deadline site.layer.policy.staleTtl⟩ : Stored).isLiveAt h.memory.now = true := by
    refine (Memory.isLiveAt_deadline_iff _ _ _ _).mpr (.inl ?_)
    rw [hnow]
    exact Nat.lt_add_of_pos_right (Policy.zero_lt_staleTtl site.policy)
  have hget := Memory.fetch_of_find? hfound
  rw [if_pos hlive] at hget
  have hgoes := hg.of_found hb hget hkeeps.decodes
  have hfresh : (site.layer.entryOf response (site.wall h.outside)).isFreshAt
        (unixNow (site.wall h.outside)) = true ↔
      site.policy.Lasting ∧ site.wall h.outside < maxSeconds := by
    rw [Policy.lasting_iff]
    exact Entry.isFreshAt_make_iff
  by_cases hlasting : site.policy.Lasting ∧ site.wall h.outside < maxSeconds
  · rw [if_pos (hfresh.mpr hlasting)] at hgoes
    rw [if_pos hlasting]
    obtain ⟨hlog, rfl⟩ := hgoes
    exact ⟨hlog, Entry.renders_replay hkeeps.status .keep⟩
  · rw [if_neg (mt hfresh.mp hlasting)] at hgoes
    rw [if_neg hlasting]
    obtain ⟨own, hasked, -⟩ := hgoes
    exact ⟨own, hasked⟩

theorem Repeats.goes {a b : Arrival τ} (hr : site.Repeats h a b key response)
    (hfits : site.Fits a h) :
    let met := b.meets (site.attend a h).state.state
    let again := site.attend b (site.attend a h).state.state
    if site.policy.Lasting ∧ site.wall met.outside < maxSeconds then
      again.state.log = [.get key] ∧
        Renders response.status response.headers response.body again.value
    else ∃ own, site.Asked b.context own again.state.log := by
  intro met again
  obtain ⟨data, ttl, hlog⟩ := hr.stored
  obtain ⟨hb, hkey⟩ := (goes_attend site a h).of_stored hlog
  have hfound := hr.stored.find?_eq hfits
  rw [← hr.wall, ← hkey, ← hr.context] at hfound
  rw [← hr.context] at hb hkey
  rw [← hkey]
  exact (goes_attend site b _).at_once hb hfound hr.now

/-- **A time to live below one second is none**: an entry is fresh at the second at which it is
made just if the policy is lasting and that is not the last second of all; and for any site over
an empty memory, the request whose answer was stored is a hit at the same readings of the clocks
under the same condition, and otherwise the layers below are asked again. -/
theorem answered_at_once (site : Site τ) :
    (∀ (headers : Headers) (body : Bytes) (status : Status) (wall : Int),
      (Entry.make headers body status site.policy.normalized.ttl wall).isFreshAt (unixNow wall) =
        true ↔ site.policy.Lasting ∧ wall < maxSeconds) ∧
    ∀ (capacity : Nat) (outside : τ) (a b : Arrival τ) (key : String) (response : Response),
      let stored := (site.attend a ⟨.empty capacity, outside⟩).state.state
      site.Repeats ⟨.empty capacity, outside⟩ a b key response →
      if site.policy.Lasting ∧ site.wall (b.meets stored).outside < maxSeconds then
        (site.attend b stored).state.log = [.get key] ∧
          Renders response.status response.headers response.body (site.attend b stored).value
      else ∃ own, site.Asked b.context own (site.attend b stored).state.log := by
  refine ⟨fun headers body status wall => ?fresh, fun capacity outside a b key response => ?again⟩
  case fresh => rw [Policy.lasting_iff, Entry.isFreshAt_make_iff]
  case again =>
    intro stored hr
    refine hr.goes (.of_size_lt ?_)
    exact Nat.lt_of_lt_of_le Nat.one_pos (Nat.le_max_right capacity 1)

/-- A site whose layers below always answer, with a wall clock that stands still. -/
def steady (ttl : Span) : Site Int where
  policy := { Policy.default with ttl }
  wall := id
  elapse _ wall := wall
  handler _ := pure (.ofText .ok "up", .zero)

theorem repeats_steady (ttl : Span) :
    (steady ttl).Repeats ⟨.empty 8, 1000⟩ (arrivalAfter 0 "/items") (arrivalAfter 0 "/items")
      "/items" (.ofText .ok "up") := by
  have hkey : Key.ofRequest "" (.ofTarget .get "/items") = "/items" := by decide +kernel
  have hb : (steady .zero).layer.bypasses (arrivalAfter 0 "/items").context.fromRequest = false := by
    decide +kernel
  have hstored : (steady ttl).Stores (arrivalAfter 0 "/items") ⟨.empty 8, 1000⟩
      (Key.ofRequest "" (.ofTarget .get "/items")) (.ofText .ok "up") :=
    stores_of_missed hb (.failed (.notFound _) _) ⟨[], rfl⟩ rfl
  rw [hkey] at hstored
  exact ⟨hstored, rfl, Int.add_zero _, rfl⟩

/-- Under a time to live of half a second the layers below are asked for the same again. -/
theorem asked_again_at_once :
    let site := steady (.ofMillis 500)
    let stored := (site.attend (arrivalAfter 0 "/items") ⟨.empty 8, 1000⟩).state.state
    site.Repeats ⟨.empty 8, 1000⟩ (arrivalAfter 0 "/items") (arrivalAfter 0 "/items") "/items"
        (.ofText .ok "up") ∧
      (Entry.make .empty [] .ok site.policy.normalized.ttl 1000).isFreshAt (unixNow 1000) = false ∧
      ∃ own, site.Asked (arrivalAfter 0 "/items").context own
        (site.attend (arrivalAfter 0 "/items") stored).state.log := by
  intro site stored
  have hr := repeats_steady (.ofMillis 500)
  have hagain := hr.goes (.of_size_lt (by decide))
  have hbrief : ¬site.policy.Lasting := by decide
  rw [if_neg fun hlasting => hbrief hlasting.1] at hagain
  exact ⟨hr, by decide, hagain⟩

/-- Under a time to live of one second it is a hit. -/
theorem hit_at_once :
    let site := steady (.ofSeconds 1)
    let stored := (site.attend (arrivalAfter 0 "/items") ⟨.empty 8, 1000⟩).state.state
    site.Repeats ⟨.empty 8, 1000⟩ (arrivalAfter 0 "/items") (arrivalAfter 0 "/items") "/items"
        (.ofText .ok "up") ∧
      (site.attend (arrivalAfter 0 "/items") stored).state.log = [.get "/items"] := by
  intro site stored
  have hr := repeats_steady (.ofSeconds 1)
  have hwall : site.wall ((arrivalAfter 0 "/items").meets stored).outside = 1000 := by
    decide +kernel
  have hagain := (answered_at_once site).2 8 1000 _ _ _ _ hr
  rw [hwall, if_pos (by decide)] at hagain
  exact ⟨hr, hagain.1⟩

end Site
end HttpCache
