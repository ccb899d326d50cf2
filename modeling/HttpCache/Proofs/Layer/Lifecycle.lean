import HttpCache.Proofs.Layer.Contract
import HttpCache.Proofs.Layer.Site
import HttpCache.Proofs.Settings

/-!
# HttpCache.Proofs.Layer.Lifecycle

A stored response from the time that it is stored to the next request for its key.

* `Site.Fits`, `Undisturbed` — the memory is large enough, and the requests in between have other
  keys or are bypassed; they leave the stored value as it is (`Undisturbed.find?_eq`).
* `Goes.of_found`, `Goes.of_lost` — what is made of an entry that is found, and of none.
* `entryOf_isFreshAt`, `Memory.isLiveAt_deadline` — the entry is fresh and the value alive for just
  the seconds that the policy names, the one by the wall clock and the other by the clock of the
  memory.
* `Later` — what the next request is answered with.
* `later_of_stored` — this is so for every policy that settings stand for.
-/

namespace HttpCache
namespace Site

open Act (Runs)
open Caching
open Entry (Renders)

variable {τ : Type} {site : Site τ} {c : Context} {h h' : Housed τ} {key : String}
variable {answer response : Response} {log : List Interaction}

/-! ## Requests in between -/

/-- The memory makes room for nothing that the request stores. -/
def Fits (site : Site τ) (a : Arrival τ) (h : Housed τ) : Prop :=
  ∀ key data ttl, .set key data ttl ∈ (site.attend a h).state.log → h.memory.values.HasRoom key

theorem Fits.of_size_lt {a : Arrival τ}
    (hlt : h.memory.values.size < h.memory.values.capacity) : site.Fits a h :=
  fun key _ _ _ => Recency.hasRoom_of_size_lt hlt key

/-- Some requests lead from `h` to `h'`: each is bypassed or has a key other than `key`, and the
memory makes room for none of them. -/
inductive Undisturbed (site : Site τ) (key : String) (h : Housed τ) : Housed τ → Prop where
  | refl : Undisturbed site key h h
  | request {h' : Housed τ} (before : Undisturbed site key h h') (a : Arrival τ)
      (hother : site.layer.bypasses a.context.fromRequest = true ∨
        site.layer.keyOf a.context.request ≠ key)
      (hfits : site.Fits a h') : Undisturbed site key h (site.attend a h').state.state

/-- A request for another key changes nothing under this one, if it finds room. -/
theorem Goes.find?_eq (hg : Goes site c h answer h' log)
    (hother : site.layer.bypasses c.fromRequest = true ∨ site.layer.keyOf c.request ≠ key)
    (hroom : ∀ key data ttl, .set key data ttl ∈ log → h.memory.values.HasRoom key) :
    h'.memory.values.find? key = h.memory.values.find? key := by
  have hne : site.layer.bypasses c.fromRequest = false → key ≠ site.layer.keyOf c.request := by
    rintro hb rfl
    obtain hb' | hne := hother
    · rw [hb] at hb'; cases hb'
    · exact hne rfl
  cases hg with
  | bypassed => rfl
  | corrupt hb => exact Memory.find?_fetch_of_ne (hne hb)
  | fresh hb => exact Memory.find?_fetch_of_ne (hne hb)
  | kept hb hm ha span outside =>
    have hroom' := (Memory.hasRoom_fetch _ _).mpr (hroom _ _ _ (.tail _ (.tail _ (.head _))))
    exact (Recency.find?_put hroom' _ _).trans
      ((if_neg (hne hb)).trans (Memory.find?_fetch_of_ne (hne hb)))
  | purged hb =>
    refine (Recency.find?_foldl_erase _ _ _).trans ?_
    rw [if_neg (by simpa using hne hb)]
    exact Memory.find?_fetch_of_ne (hne hb)

theorem Undisturbed.find?_eq (hu : Undisturbed site key h h') :
    h'.memory.values.find? key = h.memory.values.find? key := by
  induction hu with
  | refl => rfl
  | request _ a hother hfits ih => exact ((goes_attend site a _).find?_eq hother hfits).trans ih

/-! ## The request that stores -/

/-- A response of the layers below is stored under the key of the request. -/
def Stores (site : Site τ) (a : Arrival τ) (h : Housed τ) (key : String) (response : Response) :
    Prop :=
  ∃ data ttl, (site.attend a h).state.log =
    [.get key, .handled a.context response, .set key data ttl]

theorem Goes.find?_stored {data : Bytes} {ttl : Span} (hg : Goes site c h answer h' log)
    (hlog : log = [.get key, .handled c response, .set key data ttl])
    (hroom : h.memory.values.HasRoom key) :
    h'.memory.values.find? key =
      some ⟨(site.layer.entryOf response (site.wall h'.outside)).encode,
        h'.memory.deadline site.layer.policy.staleTtl⟩ := by
  cases hg with
  | kept hb hm ha span outside =>
    cases hlog
    exact (Recency.find?_put ((Memory.hasRoom_fetch _ _).mpr hroom) _ _).trans (if_pos rfl)
  | _ => cases hlog

theorem Stores.find?_eq {a : Arrival τ} (hs : site.Stores a h key response)
    (hfits : site.Fits a h) :
    (site.attend a h).state.state.memory.values.find? key =
      some ⟨(site.layer.entryOf response
          (site.wall (site.attend a h).state.state.outside)).encode,
        (site.attend a h).state.state.memory.deadline site.layer.policy.staleTtl⟩ := by
  obtain ⟨data, ttl, hlog⟩ := hs
  exact (goes_attend site a h).find?_stored hlog (hfits key data ttl (by simp [hlog]))

/-- An answer with an allowed status is stored when nothing fresh was found. -/
theorem stores_of_missed {a : Arrival τ} {candidate : Option Entry} {span : Span} {outside : τ}
    (hb : site.layer.bypasses a.context.fromRequest = false)
    (hm : Missed (Memory.fetch (site.layer.keyOf a.context.request) (a.meets h).memory).value
      (unixNow (site.wall (a.meets h).outside)) candidate)
    (hr : (site.handler a.context).Runs (a.meets h).outside (response, span) outside)
    (ha : site.layer.policy.allowsStatus response.status = true) :
    site.Stores a h (site.layer.keyOf a.context.request) response := by
  have hanswer : ∀ m, (site.answer a.context).Runs ⟨m, (a.meets h).outside⟩ response
      ⟨m.elapse span, outside⟩ :=
    fun m => (Runs.on hr).bind ((Runs.change _ _).bind (.pure _ _))
  have he := exchanges_kept hb (runs_asked site _ a.context) hm (hanswer _) ha
    (runs_set site _ _ _ _)
  exact ⟨_, _, by rw [attend, (state_visit (w := ⟨h, []⟩) site he).state]; rfl⟩

/-! ## The next request for the key -/

/-- The layers below were asked after a look at the key; what happened last is not told. -/
def Asked (site : Site τ) (c : Context) (own : Response) (log : List Interaction) : Prop :=
  ∃ last, log = [.get (site.layer.keyOf c.request), .handled c own, last]

/-- What is found under the key is an entry: the request is a hit while that is fresh, and
otherwise the layers below are asked. -/
theorem Goes.of_found {data : Bytes} {entry : Entry} (hg : Goes site c h answer h' log)
    (hb : site.layer.bypasses c.fromRequest = false) (hget : (site.look c h).value = .ok data)
    (hd : Entry.decode data = .ok entry) :
    if entry.isFreshAt (unixNow (site.wall h.outside)) = true then
      log = [.get (site.layer.keyOf c.request)] ∧ answer = entry.toResponse
    else ∃ own, site.Asked c own log ∧
      answer = if site.layer.policy.allowsStatus own.status = true then sentOn own
        else site.layer.substitute (some entry) own := by
  have hmissed : ∀ candidate, Missed (site.look c h).value (unixNow (site.wall h.outside))
      candidate → candidate = some entry ∧
        ¬entry.isFreshAt (unixNow (site.wall h.outside)) = true := by
    intro candidate hm
    obtain ⟨hread, hfilter⟩ := hm.reading_eq
    simp only [hget, reading, hd] at hread
    cases hread
    exact ⟨rfl, by simpa using hfilter⟩
  cases hg with
  | bypassed hb' => rw [hb] at hb'; cases hb'
  | corrupt _ hget' hd' =>
    rw [hget] at hget'
    cases hget'
    rw [hd] at hd'
    cases hd'
  | fresh _ hget' hd' hf =>
    rw [hget] at hget'
    cases hget'
    rw [hd] at hd'
    cases hd'
    rw [if_pos hf]
    exact ⟨rfl, rfl⟩
  | kept _ hm ha =>
    rw [if_neg (hmissed _ hm).2]
    exact ⟨_, ⟨_, rfl⟩, (if_pos ha).symm⟩
  | purged _ hm ha =>
    obtain ⟨rfl, hstale⟩ := hmissed _ hm
    rw [if_neg hstale]
    exact ⟨_, ⟨_, rfl⟩, (if_neg (by simp [ha])).symm⟩

/-- Nothing is found under the key: the layers below are asked, and their answer is sent on. -/
theorem Goes.of_lost {e : CacheError} (hg : Goes site c h answer h' log)
    (hb : site.layer.bypasses c.fromRequest = false) (hget : (site.look c h).value = .error e) :
    ∃ own, site.Asked c own log ∧ answer = sentOn own := by
  cases hg with
  | bypassed hb' => rw [hb] at hb'; cases hb'
  | corrupt _ hget' => rw [hget] at hget'; cases hget'
  | fresh _ hget' => rw [hget] at hget'; cases hget'
  | kept => exact ⟨_, ⟨_, rfl⟩, rfl⟩
  | purged _ hm =>
    rw [hget] at hm
    cases hm
    exact ⟨_, ⟨_, rfl⟩, rfl⟩

/-! ## Both clocks -/

/-- An entry is fresh for just the seconds of its time to live, if the wall clock reaches them. -/
theorem entryOf_isFreshAt {fresh gone : Nat} {since : Int}
    (httl : site.layer.policy.ttl = .ofSeconds fresh) (hsince : 0 ≤ since)
    (hmax : since + fresh ≤ maxSeconds) :
    (site.layer.entryOf response since).isFreshAt (unixNow (since + gone)) = true ↔
      gone < fresh := by
  have hexpiration := (keeps_entryOf site.layer response since).expiration
  rw [httl, Span.seconds_ofSeconds] at hexpiration
  simp only [Entry.isFreshAt, decide_eq_true_iff, hexpiration, unixNow]
  simp only [maxSeconds] at hmax ⊢
  omega

/-- What is owed to the next request for a key under which `response` was stored at the second
`since`, when it arrives at the second `now`. -/
structure Later (site : Site τ) (response : Response) (fresh kept : Nat) (since now : Int)
    (c : Context) (answer : Response) (log : List Interaction) : Prop where
  /-- At first the stored response is the answer, and the layers below are not asked. -/
  hit : now < since + fresh →
    log = [.get (site.layer.keyOf c.request)] ∧
      Renders response.status response.headers response.body answer
  /-- Then the layers below are asked, and the stored response stands in for a failed answer. -/
  stale : since + fresh ≤ now → now < since + kept →
    ∃ own, site.Asked c own log ∧
      (site.layer.policy.useStale = true → own.status ∈ site.layer.policy.staleStatuses →
        own.status ∉ site.layer.policy.allowedStatuses →
        Renders response.status response.headers response.body answer)
  /-- In the end only they answer. -/
  gone : since + kept ≤ now → ∃ own, site.Asked c own log ∧ answer = sentOn own

theorem Goes.later {fresh kept gone : Nat} {since : Int} {m : Memory}
    (htimed : site.layer.policy.Timed fresh kept)
    (hg : Goes site c h answer h' log)
    (hb : site.layer.bypasses c.fromRequest = false)
    (hfound : h.memory.values.find? (site.layer.keyOf c.request) =
      some ⟨(site.layer.entryOf response since).encode, m.deadline (.ofSeconds kept)⟩)
    (hsince : 0 ≤ since) (hmax : since + kept ≤ maxSeconds)
    (hwall : site.wall h.outside = since + gone)
    (hnow : h.memory.now = m.now + .ofSeconds gone)
    (hreached : h.memory.now.seconds < Memory.horizon) :
    Later site response fresh kept since (site.wall h.outside) c answer log := by
  have hordered := htimed.ordered
  have hkeeps := keeps_entryOf site.layer response since
  have hget := Memory.fetch_of_find? hfound
  have hlive : (⟨_, m.deadline (.ofSeconds kept)⟩ : Stored).isLiveAt h.memory.now = true ↔
      gone < kept :=
    Memory.isLiveAt_deadline hnow hreached (site.layer.entryOf response since).encode
  have hfresh : (site.layer.entryOf response since).isFreshAt (unixNow (site.wall h.outside)) =
      true ↔ gone < fresh := by
    rw [hwall]
    exact entryOf_isFreshAt htimed.ttl hsince (by omega)
  refine ⟨fun hlt => ?hit, fun hle hlt => ?stale, fun hle => ?gone⟩
  case hit =>
    rw [if_pos (hlive.mpr (by omega))] at hget
    have hgoes := hg.of_found hb hget hkeeps.decodes
    rw [if_pos (hfresh.mpr (by omega))] at hgoes
    obtain ⟨hlog, rfl⟩ := hgoes
    exact ⟨hlog, Entry.renders_replay hkeeps.status .keep⟩
  case stale =>
    rw [if_pos (hlive.mpr (by omega))] at hget
    have hgoes := hg.of_found hb hget hkeeps.decodes
    rw [if_neg fun hf => absurd (hfresh.mp hf) (by omega)] at hgoes
    obtain ⟨own, hasked, rfl⟩ := hgoes
    refine ⟨own, hasked, fun hu ht ha => ?_⟩
    have htrigger := (isStaleTrigger_iff site.layer own.status).mpr ⟨hu, ht⟩
    rw [if_neg (by simpa [Policy.allowsStatus] using ha)]
    simp only [substitute, Option.filter_some, htrigger, if_true]
    exact Entry.renders_replay hkeeps.status .replace
  case gone =>
    rw [if_neg fun hl => absurd (hlive.mp hl) (by omega)] at hget
    exact hg.of_lost hb hget

/-- **A stored response goes through its life second by second**, for every policy that settings
stand for, whether or not stored responses may stand in for failures: the next request for its key
is a hit until `ttl` seconds have gone by; then the layers below are asked, and until `staleTtl`
seconds have gone by it can stand in for a failure; from then on they alone answer. Both clocks
have to go on by the same seconds, and the memory has to be large enough. -/
theorem later_of_stored {s : Settings} {o : Policy} (hs : s.toPolicy = .ok o) {useStale : Bool}
    (hpolicy : site.policy = { o with useStale }) {h h' : Housed τ} {a b : Arrival τ}
    {response : Response} {key : String} {gone : Nat}
    (hstored : site.Stores a h key response) (hfits : site.Fits a h)
    (hbetween : site.Undisturbed key (site.attend a h).state.state h')
    (hb : site.layer.bypasses b.context.fromRequest = false)
    (hkey : site.layer.keyOf b.context.request = key)
    (hsince : 0 ≤ site.wall (site.attend a h).state.state.outside)
    (hmax : site.wall (site.attend a h).state.state.outside + o.staleTtl.seconds ≤ maxSeconds)
    (hwall : site.wall (b.meets h').outside =
      site.wall (site.attend a h).state.state.outside + gone)
    (hnow : (b.meets h').memory.now =
      (site.attend a h).state.state.memory.now + .ofSeconds gone)
    (hreached : (b.meets h').memory.now.seconds < Memory.horizon) :
    Later site response o.ttl.seconds o.staleTtl.seconds
      (site.wall (site.attend a h).state.state.outside) (site.wall (b.meets h').outside)
      b.context (site.attend b h').value (site.attend b h').state.log := by
  obtain ⟨fresh, kept, htimed⟩ := Settings.timed_of_toPolicy hs
  have hlayer : site.layer.policy.Timed fresh kept := by
    refine Policy.Timed.normalized ?_
    rw [hpolicy]
    exact ⟨htimed.ttl, htimed.staleTtl, htimed.positive, htimed.ordered⟩
  have hfound := (hbetween.find?_eq).trans (hstored.find?_eq hfits)
  rw [hlayer.staleTtl, ← hkey] at hfound
  rw [htimed.staleTtl, Span.seconds_ofSeconds] at hmax
  rw [htimed.ttl, htimed.staleTtl, Span.seconds_ofSeconds, Span.seconds_ofSeconds]
  exact (goes_attend site b h').later hlayer hb hfound hsince hmax hwall hnow hreached

/-- A response is a hit for one minute and is kept for two. -/
def minutes : Settings :=
  { Settings.empty with ttlSecs := some 60, useStale := some true, staleTtlSecs := some 120 }

def minutesPolicy : Policy :=
  { Policy.default with ttl := .ofSeconds 60, useStale := true, staleTtl := .ofSeconds 120 }

/-- A site whose layers below fail from a second of the wall clock on. -/
def failingFrom (second : Int) : Site Int where
  policy := minutesPolicy
  wall := id
  elapse span wall := wall + span.seconds
  handler _ := .read fun wall =>
    (if wall < second then .ofText .ok "up" else .ofText .internalServerError "down", .zero)

def arrivalAfter (seconds : Nat) (target : String) : Arrival Int where
  context := .ofRequest (.ofTarget .get target)
  pause := .ofSeconds seconds
  meanwhile wall := wall + seconds

/-- The layers below answer at second 1000, and they fail at second 1090. -/
theorem later_of_failing :
    let site := failingFrom 1060
    let h := (site.attend (arrivalAfter 0 "/items") ⟨.empty 8, 1000⟩).state.state
    let h' := (site.attend (arrivalAfter 30 "/other") h).state.state
    minutes.toPolicy = .ok minutesPolicy ∧
      site.Stores (arrivalAfter 0 "/items") ⟨.empty 8, 1000⟩ "/items" (.ofText .ok "up") ∧
      site.Undisturbed "/items" h h' ∧
      Later site (.ofText .ok "up") 60 120 1000 1090 (arrivalAfter 60 "/items").context
        (site.attend (arrivalAfter 60 "/items") h').value
        (site.attend (arrivalAfter 60 "/items") h').state.log := by
  intro site h h'
  have hkey : site.layer.keyOf (arrivalAfter 0 "/items").context.request = "/items" := by
    decide +kernel
  have hstored : site.Stores (arrivalAfter 0 "/items") ⟨.empty 8, 1000⟩
      (site.layer.keyOf (arrivalAfter 0 "/items").context.request) (.ofText .ok "up") :=
    stores_of_missed (by decide +kernel) (.failed (.notFound _) _) ⟨[], rfl⟩ (by decide)
  rw [hkey] at hstored
  have hfits : site.Fits (arrivalAfter 0 "/items") ⟨.empty 8, 1000⟩ :=
    fun key _ _ _ => Recency.hasRoom_of_size_lt (by decide) key
  have hfits' : site.Fits (arrivalAfter 30 "/other") h :=
    fun key _ _ _ => Recency.hasRoom_of_size_lt (by decide +kernel) key
  have hbetween : site.Undisturbed "/items" h h' :=
    .request .refl _ (.inr (by decide +kernel)) hfits'
  have hb : site.layer.bypasses (arrivalAfter 60 "/items").context.fromRequest = false := by
    decide +kernel
  have hsince : site.wall h.outside = 1000 := by decide +kernel
  have hwall : site.wall ((arrivalAfter 60 "/items").meets h').outside = 1090 := by decide +kernel
  have hgone : site.wall ((arrivalAfter 60 "/items").meets h').outside =
      site.wall h.outside + (90 : Nat) := by rw [hsince, hwall]; rfl
  have hnow : ((arrivalAfter 60 "/items").meets h').memory.now = h.memory.now + .ofSeconds 90 := by
    decide +kernel
  have hlater := later_of_stored (s := minutes) rfl rfl hstored hfits hbetween hb hkey
    (by rw [hsince]; decide) (by rw [hsince]; decide) hgone hnow (by decide +kernel)
  rw [hsince, hwall] at hlater
  exact ⟨rfl, hstored, hbetween, hlater⟩

end Site
end HttpCache
