import HttpCache.Proofs.Layer.Lifecycle

/-!
# HttpCache.Proofs.Layer.Commutation

Requests that do not get in each other's way.

* `Housed.Alike` — two states of a site differ only in the order of use, and in what is held under
  other keys.
* `course_alike` — a request goes alike from two such states, if its own key is among the keys.
* `course_frame` — a request that takes no time changes nothing but what is under its own key.
* `courses_exchange` — so two requests with different keys may change places.
* `answers_exchange` — and no answer of a run tells which of the two came first.
-/

namespace HttpCache

variable {τ : Type}

/-! ## States that are alike -/

/-- The same state, as far as the keys of a set go, but for the order of use. -/
structure Housed.Alike (shown : String → Prop) (h h' : Housed τ) : Prop where
  outside : h.outside = h'.outside
  now : h.memory.now = h'.memory.now
  values : h.memory.Alike shown h'.memory

namespace Housed.Alike

variable {shown : String → Prop} {h h' h'' : Housed τ}

theorem refl (h : Housed τ) : Alike shown h h := ⟨rfl, rfl, fun _ _ => rfl⟩

theorem symm (hs : Alike shown h h') : Alike shown h' h :=
  ⟨hs.outside.symm, hs.now.symm, fun key hkey => (hs.values key hkey).symm⟩

theorem trans (hs : Alike shown h h') (hs' : Alike shown h' h'') : Alike shown h h'' :=
  ⟨hs.outside.trans hs'.outside, hs.now.trans hs'.now,
    fun key hkey => (hs.values key hkey).trans (hs'.values key hkey)⟩

theorem meets (hs : Alike shown h h') (a : Arrival τ) : Alike shown (a.meets h) (a.meets h') where
  outside := congrArg a.meanwhile hs.outside
  now := congrArg (· + a.pause) hs.now
  values := hs.values

end Housed.Alike

namespace Site

variable {site : Site τ} {c : Context} {h h' : Housed τ} {shown : String → Prop}

/-- Two courses with the same answer and log, that end alike. -/
structure Course.Alike (shown : String → Prop) (r r' : Course τ) : Prop where
  answer : r.answer = r'.answer
  log : r.log = r'.log
  after : r.after.Alike shown r'.after

/-- The memory makes room for nothing that is stored. -/
def Course.Fits (r : Course τ) (h : Housed τ) : Prop :=
  ∀ key data ttl, .set key data ttl ∈ r.log → h.memory.values.HasRoom key

/-! ## The same request from two states -/

theorem answer_alike (site : Site τ) (c : Context) (hs : h.Alike shown h') :
    (site.answer c h).value = (site.answer c h').value ∧
      (site.answer c h).state.Alike shown (site.answer c h').state := by
  simp only [value_answer, state_answer, hs.outside, true_and]
  exact ⟨rfl, congrArg (· + _) hs.now, hs.values⟩

theorem look_alike (site : Site τ) (c : Context) (hs : h.Alike shown h') :
    Housed.Alike shown { h with memory := (site.look c h).state }
      { h' with memory := (site.look c h').state } where
  outside := hs.outside
  now := by simpa only [Memory.now_fetch] using hs.now
  values := hs.values.fetch hs.now _

theorem concluded_alike {candidate : Option Entry} (hs : h.Alike shown h')
    (hfits : (site.concluded c candidate h).Fits h)
    (hfits' : (site.concluded c candidate h').Fits h') :
    (site.concluded c candidate h).Alike shown (site.concluded c candidate h') := by
  obtain ⟨hvalue, houtside, hnow, hvalues⟩ := answer_alike site c hs
  cases ha : site.layer.policy.allowsStatus (site.answer c h).value.status with
  | true =>
    simp only [concluded, ← hvalue, ha, if_true] at hfits hfits' ⊢
    have hroom := hfits _ _ _ (.tail _ (.tail _ (.head _)))
    have hroom' := hfits' _ _ _ (.tail _ (.tail _ (.head _)))
    refine ⟨rfl, by simp only [houtside], houtside, hnow, ?_⟩
    rw [houtside]
    exact hvalues.keep hnow hroom hroom' _ _
  | false =>
    simp only [concluded, ← hvalue, ha, Bool.false_eq_true, if_false]
    exact ⟨rfl, rfl, houtside, hnow, hvalues.drop _⟩

theorem key_of_mem_concluded {candidate : Option Entry} {key : String} {data : Bytes} {ttl : Span}
    (hset : .set key data ttl ∈ (site.concluded c candidate h).log) :
    key = site.layer.keyOf c.request := by
  unfold concluded at hset
  dsimp only at hset
  split at hset
  · simp only [List.mem_cons, reduceCtorEq, List.not_mem_nil, or_false, false_or] at hset
    cases hset
    rfl
  · simp at hset

/-- A look at the key of the request leaves room for what it stores. -/
theorem Course.Fits.looked {candidate : Option Entry}
    (hfits : (site.concluded c candidate { h with memory := (site.look c h).state }).Fits h) :
    (site.concluded c candidate { h with memory := (site.look c h).state }).Fits
      { h with memory := (site.look c h).state } := by
  intro key data ttl hset
  have hroom := hfits key data ttl hset
  rw [key_of_mem_concluded hset] at hroom ⊢
  exact (Memory.hasRoom_fetch _ _).mpr hroom

/-- A request goes alike from two states in which the same is held under its key. -/
theorem course_alike (hs : h.Alike shown h')
    (hshown : site.layer.bypasses c.fromRequest = false → shown (site.layer.keyOf c.request))
    (hfits : (site.course c h).Fits h) (hfits' : (site.course c h').Fits h') :
    (site.course c h).Alike shown (site.course c h') := by
  cases hb : site.layer.bypasses c.fromRequest with
  | true =>
    obtain ⟨hvalue, hstate⟩ := answer_alike site c.fromRequest hs
    simp only [course, hb, if_true]
    exact ⟨hvalue, by rw [hvalue], hstate⟩
  | false =>
    have hget : (site.look c h).value = (site.look c h').value :=
      hs.values.value_fetch hs.now (hshown hb)
    have hwall : site.wall h.outside = site.wall h'.outside := congrArg site.wall hs.outside
    have hlooked := look_alike site c hs
    simp only [course, hb, ← hget, ← hwall, Bool.false_eq_true, if_false] at hfits hfits' ⊢
    cases hv : verdict (site.look c h).value (unixNow (site.wall h.outside)) with
    | inl answer => exact ⟨rfl, rfl, hlooked⟩
    | inr candidate =>
      simp only [hv] at hfits hfits'
      exact concluded_alike hlooked hfits.looked hfits'.looked

/-! ## What a request leaves as it is -/

/-- The layers below take no time for the request, and change nothing. -/
structure Still (site : Site τ) (c : Context) (outside : τ) : Prop where
  span : (site.handler c.fromRequest outside).value.2 = .zero
  state : (site.handler c.fromRequest outside).state = outside

/-- The request is not bypassed, and the key is its own. -/
def Touches (site : Site τ) (c : Context) (key : String) : Prop :=
  site.layer.bypasses c.fromRequest = false ∧ site.layer.keyOf c.request = key

theorem Still.state_answer (hstill : site.Still c h.outside) :
    (site.answer c.fromRequest h).state = h := by
  rw [Site.state_answer, hstill.span, hstill.state, Memory.elapse_zero]

theorem course_still (hstill : site.Still c h.outside) :
    (site.course c h).after.outside = h.outside ∧
      (site.course c h).after.memory.now = h.memory.now := by
  cases hb : site.layer.bypasses c.fromRequest with
  | true =>
    rw [course, if_pos hb]
    exact ⟨congrArg (·.outside) hstill.state_answer, congrArg (·.memory.now) hstill.state_answer⟩
  | false =>
    have hkept : (site.answer c { h with memory := (site.look c h).state }).state =
        { h with memory := (site.look c h).state } := by
      have hstill' := Still.state_answer (h := { h with memory := (site.look c h).state }) hstill
      rwa [Caching.fromRequest_of_not_bypassed hb] at hstill'
    simp only [course, hb, Bool.false_eq_true, if_false]
    cases verdict (site.look c h).value (unixNow (site.wall h.outside)) with
    | inl answer => exact ⟨rfl, Memory.now_fetch _ _⟩
    | inr candidate =>
      simp only [concluded, hkept]
      split
      · exact ⟨rfl, Memory.now_fetch _ _⟩
      · exact ⟨rfl, Memory.now_fetch _ _⟩

/-- A request that takes no time changes nothing but what is under its own key. -/
theorem course_frame (hstill : site.Still c h.outside) (hfits : (site.course c h).Fits h) :
    (site.course c h).after.Alike (¬site.Touches c ·) h := by
  obtain ⟨houtside, hnow⟩ := course_still hstill
  refine ⟨houtside, hnow, fun key hnot => ?_⟩
  rw [Touches, not_and_or, Bool.not_eq_false] at hnot
  exact (proceeds_course site c h).goes.find?_eq hnot hfits

/-! ## Two requests -/

/-- One of the requests is bypassed, or they have different keys. -/
def Unrelated (site : Site τ) (c c' : Context) : Prop :=
  site.layer.bypasses c.fromRequest = true ∨ site.layer.bypasses c'.fromRequest = true ∨
    site.layer.keyOf c.request ≠ site.layer.keyOf c'.request

theorem Unrelated.symm {c c' : Context} (hother : site.Unrelated c c') : site.Unrelated c' c := by
  rcases hother with hb | hb' | hne
  · exact .inr (.inl hb)
  · exact .inl hb'
  · exact .inr (.inr hne.symm)

theorem Unrelated.not_touches {c c' : Context} (hother : site.Unrelated c c')
    (hb : site.layer.bypasses c.fromRequest = false) :
    ¬site.Touches c' (site.layer.keyOf c.request) := by
  rintro ⟨hb', hk⟩
  simp [Unrelated, hb, hb', hk] at hother

/-- Two requests that take no time go alike in both orders, if they do not have a key in common:
each has its own answer, and they leave the same behind. -/
theorem courses_exchange {c c' : Context} (hother : site.Unrelated c c')
    (hstill : site.Still c h.outside) (hstill' : site.Still c' h.outside)
    (hfits : (site.course c h).Fits h)
    (hnext : (site.course c' (site.course c h).after).Fits (site.course c h).after)
    (hfits' : (site.course c' h).Fits h)
    (hnext' : (site.course c (site.course c' h).after).Fits (site.course c' h).after) :
    (site.course c h).answer = (site.course c (site.course c' h).after).answer ∧
      (site.course c' (site.course c h).after).answer = (site.course c' h).answer ∧
      (site.course c' (site.course c h).after).after.Alike (fun _ => True)
        (site.course c (site.course c' h).after).after := by
  -- Neither request is noticed under the keys that are not its own.
  have hframe := course_frame hstill hfits
  have hframe' := course_frame hstill' hfits'
  have hlast := course_frame (hframe.outside ▸ hstill') hnext
  have hlast' := course_frame (hframe'.outside ▸ hstill) hnext'
  -- So each goes alike before and after the other one.
  have hsame := course_alike hframe'.symm hother.not_touches hfits hnext'
  have hsame' := course_alike hframe hother.symm.not_touches hnext hfits'
  have hleft := hlast.trans hsame.after
  have hright := hsame'.after.trans hlast'.symm
  refine ⟨hsame.answer, hsame'.answer, hleft.outside, hleft.now, fun key _ => ?_⟩
  by_cases hk : site.Touches c' key
  · refine hright.values key fun hk' => ?_
    exact hother.not_touches hk'.1 (hk'.2 ▸ hk)
  · exact hleft.values key hk

/-! ## Whole runs -/

/-- The memory makes room for nothing that the requests store. -/
def AllFit (site : Site τ) : List (Arrival τ) → Housed τ → Prop
  | [], _ => True
  | a :: arrivals, h => site.Fits a h ∧ AllFit site arrivals (site.attend a h).state.state

theorem AllFit.of_append {first second : List (Arrival τ)} {h : Housed τ}
    (hfits : site.AllFit (first ++ second) h) : site.AllFit second (site.passed first h) := by
  induction first generalizing h with
  | nil => exact hfits
  | cons a first ih => exact ih hfits.2

theorem AllFit.append_left {first second : List (Arrival τ)} {h : Housed τ}
    (hfits : site.AllFit (first ++ second) h) : site.AllFit first h := by
  induction first generalizing h with
  | nil => trivial
  | cons a first ih => exact ⟨hfits.1, ih hfits.2⟩

theorem Fits.course {a : Arrival τ} (hfits : site.Fits a h) :
    (site.course a.context (a.meets h)).Fits (a.meets h) := by
  intro key data ttl hset
  refine hfits key data ttl ?_
  rw [state_attend]
  exact hset

theorem answers_alike {arrivals : List (Arrival τ)} (hs : h.Alike (fun _ => True) h')
    (hfits : site.AllFit arrivals h) (hfits' : site.AllFit arrivals h') :
    site.answers arrivals h = site.answers arrivals h' := by
  induction arrivals generalizing h h' with
  | nil => rfl
  | cons a arrivals ih =>
    have hcourse := course_alike (hs.meets a) (fun _ => trivial) hfits.1.course hfits'.1.course
    have hafter := hcourse.after
    rw [← after_attend, ← after_attend] at hafter
    rw [answers, answers, value_attend, value_attend, hcourse.answer, ih hafter hfits.2 hfits'.2]

/-- A pair of requests, the second one at once after the first. -/
def pair (a : Arrival τ) (c : Context) : List (Arrival τ) := [a, ⟨c, .zero, id⟩]

theorem pair_exchange {a : Arrival τ} {c : Context} (hother : site.Unrelated a.context c)
    (hstill : site.Still a.context (a.meets h).outside) (hstill' : site.Still c (a.meets h).outside)
    (hfits : site.AllFit (pair a c) h)
    (hfits' : site.AllFit (pair { a with context := c } a.context) h) :
    ∃ first second, site.answers (pair a c) h = [first, second] ∧
      site.answers (pair { a with context := c } a.context) h = [second, first] ∧
      (site.passed (pair a c) h).Alike (fun _ => True)
        (site.passed (pair { a with context := c } a.context) h) := by
  obtain ⟨hfirst, hnext, -⟩ := hfits
  obtain ⟨hfirst', hnext', -⟩ := hfits'
  have hnext := hnext.course
  have hnext' := hnext'.course
  rw [after_attend] at hnext hnext'
  obtain ⟨hanswer, hanswer', hafter⟩ :=
    courses_exchange hother hstill hstill' hfirst.course hnext hfirst'.course hnext'
  refine ⟨(site.course a.context (a.meets h)).answer, (site.course c (a.meets h)).answer,
    ?_, ?_, ?_⟩
  · simp only [pair, answers, value_attend, after_attend]
    exact congrArg (fun second => [_, second]) hanswer'
  · simp only [pair, answers, value_attend, after_attend]
    exact congrArg (fun second => [_, second]) hanswer.symm
  · simp only [pair, passed, List.foldl_cons, List.foldl_nil, after_attend]
    exact hafter

/-- **Requests for different keys commute.** Of two requests one of which comes at once after the
other, and which take no time, each has the same answer in both orders, if they have different
keys or one of them is bypassed; all other requests are answered alike as well, and the pair leaves
the same under every key. The memory may hold anything at first, but must be large enough: in
both orders, for the purge of one request could be the room for what the other one stores. -/
theorem answers_exchange (before after : List (Arrival τ)) (a : Arrival τ) (c : Context)
    (h : Housed τ) (hother : site.Unrelated a.context c)
    (hstill : site.Still a.context (a.meets (site.passed before h)).outside)
    (hstill' : site.Still c (a.meets (site.passed before h)).outside)
    (hfits : site.AllFit (before ++ pair a c ++ after) h)
    (hfits' : site.AllFit (before ++ pair { a with context := c } a.context ++ after) h) :
    ∃ earlier first second later,
      site.answers (before ++ pair a c ++ after) h = earlier ++ [first, second] ++ later ∧
      site.answers (before ++ pair { a with context := c } a.context ++ after) h =
        earlier ++ [second, first] ++ later ∧
      earlier.length = before.length ∧
      ∀ key, (site.passed (before ++ pair a c) h).memory.values.find? key =
        (site.passed (before ++ pair { a with context := c } a.context) h).memory.values.find?
          key := by
  have hpair := AllFit.of_append (List.append_assoc before _ after ▸ hfits)
  have hpair' := AllFit.of_append (List.append_assoc before _ after ▸ hfits')
  obtain ⟨first, second, hanswers, hanswers', hafter⟩ :=
    pair_exchange hother hstill hstill' hpair.append_left hpair'.append_left
  have hlater := answers_alike hafter hpair.of_append hpair'.of_append
  have hpassed : ∀ between : List (Arrival τ), site.passed (before ++ between) h =
      site.passed between (site.passed before h) := fun between => List.foldl_append
  refine ⟨site.answers before h, first, second,
    site.answers after (site.passed (pair a c) (site.passed before h)), ?_, ?_,
    length_answers before h, ?_⟩
  · rw [answers_append, answers_append, hanswers, hpassed]
  · rw [answers_append, answers_append, hanswers', hpassed, hlater]
  · intro key
    rw [hpassed, hpassed]
    exact hafter.values key trivial

/-- The layers below fail from second 1060 on. At second 1090 the stored response stands in for a
failed one under its own key, and none does under the other. -/
theorem answers_exchange_failing :
    let site := failingFrom 1060
    let h : Housed Int := ⟨.empty 8, 1000⟩
    let before := [arrivalAfter 0 "/a"]
    let a := arrivalAfter 90 "/a"
    let c := (arrivalAfter 0 "/b").context
    let after := [arrivalAfter 5 "/a"]
    site.Unrelated a.context c ∧
      site.Still a.context (a.meets (site.passed before h)).outside ∧
      site.Still c (a.meets (site.passed before h)).outside ∧
      site.AllFit (before ++ pair a c ++ after) h ∧
      site.AllFit (before ++ pair { a with context := c } a.context ++ after) h ∧
      ∃ earlier first second later,
        site.answers (before ++ pair a c ++ after) h = earlier ++ [first, second] ++ later ∧
        site.answers (before ++ pair { a with context := c } a.context ++ after) h =
          earlier ++ [second, first] ++ later ∧
        earlier.length = 1 ∧
        ∀ key, (site.passed (before ++ pair a c) h).memory.values.find? key =
          (site.passed (before ++ pair { a with context := c } a.context) h).memory.values.find?
            key := by
  intro site h before a c after
  have hother : site.Unrelated a.context c := .inr (.inr (by decide +kernel))
  have hstill : site.Still a.context (a.meets (site.passed before h)).outside := ⟨rfl, rfl⟩
  have hstill' : site.Still c (a.meets (site.passed before h)).outside := ⟨rfl, rfl⟩
  have hfits : site.AllFit (before ++ pair a c ++ after) h :=
    ⟨.of_size_lt (by decide +kernel), .of_size_lt (by decide +kernel),
      .of_size_lt (by decide +kernel), .of_size_lt (by decide +kernel), trivial⟩
  have hfits' : site.AllFit (before ++ pair { a with context := c } a.context ++ after) h :=
    ⟨.of_size_lt (by decide +kernel), .of_size_lt (by decide +kernel),
      .of_size_lt (by decide +kernel), .of_size_lt (by decide +kernel), trivial⟩
  exact ⟨hother, hstill, hstill', hfits, hfits',
    answers_exchange before after a c h hother hstill hstill' hfits hfits'⟩

end Site
end HttpCache
