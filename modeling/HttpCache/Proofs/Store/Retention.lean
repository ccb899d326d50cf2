import HttpCache.Proofs.Store.History

/-!
# HttpCache.Proofs.Store.Retention

What is in use is kept. Making room can lose a value only if as many other keys as there is room
for were used after it.

* `Recency.KeptBehind`: a value is found under a key, and whatever was used after it has one of a
  pool of keys.
* `Moment.used?`, `usedSince`: the keys that are used, by storing or by finding a value.
* `Retains`: the value written last under a key is kept, if it lives until some time.
* `get_of_used`: a key that was used is found as long as few enough others are used.
-/

namespace HttpCache
namespace Recency

variable {α : Type} {r : Recency α} {pool : List String} {key other : String} {value : α}

/-- A value is found under a key, and all that was used after it has a key of the pool. -/
def KeptBehind (r : Recency α) (pool : List String) (key : String) (value : α) : Prop :=
  ∃ newer older, r.entries = newer ++ (key, value) :: older ∧
    ∀ entry ∈ newer, entry.1 ≠ key ∧ entry.1 ∈ pool

namespace KeptBehind

theorem find? (h : r.KeptBehind pool key value) : r.find? key = some value := by
  obtain ⟨newer, older, hall, hnewer⟩ := h
  have hnone : newer.find? (fun entry => entry.1 == key) = none :=
    List.find?_eq_none.mpr fun entry hentry => by simpa using (hnewer entry hentry).1
  simp [Recency.find?, hall, hnone]

theorem of_first {older : List (String × α)} (h : r.entries = (key, value) :: older) :
    r.KeptBehind pool key value :=
  ⟨[], older, h, fun _ hentry => absurd hentry List.not_mem_nil⟩

theorem erase (h : r.KeptBehind pool key value) (hne : key ≠ other) :
    (r.erase other).KeptBehind pool key value := by
  obtain ⟨newer, older, hall, hnewer⟩ := h
  refine ⟨newer.filter (·.1 != other), older.filter (·.1 != other), ?_,
    fun entry hentry => hnewer entry (List.mem_of_mem_filter hentry)⟩
  simp [Recency.erase, hall, hne]

theorem foldl_erase (h : r.KeptBehind pool key value) {keys : List String} (hkeys : key ∉ keys) :
    (keys.foldl Recency.erase r).KeptBehind pool key value := by
  induction keys generalizing r with
  | nil => exact h
  | cons other keys ih =>
    exact ih (h.erase (List.ne_of_not_mem_cons hkeys)) (List.not_mem_of_not_mem_cons hkeys)

theorem cons_erase (h : r.KeptBehind pool key value) (hne : key ≠ other) (hpool : other ∈ pool)
    (moved : α) : ({ r with entries := (other, moved) :: (r.erase other).entries } :
      Recency α).KeptBehind pool key value := by
  obtain ⟨newer, older, hall, hnewer⟩ := h.erase hne
  refine ⟨(other, moved) :: newer, older, by rw [hall]; rfl, ?_⟩
  exact List.forall_mem_cons.mpr ⟨⟨hne.symm, hpool⟩, hnewer⟩

/-- What was used after a value is no more than the other keys of the pool. -/
theorem length_newer_le {newer older : List (String × α)}
    (hall : r.entries = newer ++ (key, value) :: older)
    (hnewer : ∀ entry ∈ newer, entry.1 ≠ key ∧ entry.1 ∈ pool) (hnodup : r.keys.Nodup) :
    newer.length ≤ (pool.filter (· ≠ key)).dedup.length := by
  have hsub : newer.map (·.1) ⊆ (pool.filter (· ≠ key)).dedup := by
    intro other hother
    obtain ⟨entry, hentry, rfl⟩ := List.mem_map.mp hother
    obtain ⟨hne, hpool⟩ := hnewer entry hentry
    exact List.mem_dedup.mpr (List.mem_filter.mpr ⟨hpool, by simpa using hne⟩)
  rw [keys, hall, List.map_append] at hnodup
  have hle := (List.subperm_of_subset (List.nodup_append.mp hnodup).1 hsub).length_le
  rwa [List.length_map] at hle

theorem take (h : r.KeptBehind pool key value) (hnodup : r.keys.Nodup) {room : Nat}
    (hroom : (pool.filter (· ≠ key)).dedup.length < room) :
    ({ r with entries := r.entries.take room } : Recency α).KeptBehind pool key value := by
  obtain ⟨newer, older, hall, hnewer⟩ := h
  have hlt := Nat.lt_of_le_of_lt (length_newer_le hall hnewer hnodup) hroom
  obtain ⟨left, hleft⟩ : ∃ left, room - newer.length = left + 1 :=
    Nat.exists_eq_add_one.mpr (Nat.sub_pos_of_lt hlt)
  -- the newer entries leave room for the value itself
  refine ⟨newer, older.take left, ?_, hnewer⟩
  rw [hall, List.take_append, List.take_of_length_le (Nat.le_of_lt hlt), hleft,
    List.take_succ_cons]

theorem touch (h : r.KeptBehind pool key value) (hne : key ≠ other) (hpool : other ∈ pool) :
    (r.touch other).KeptBehind pool key value := by
  unfold Recency.touch
  split
  · exact h
  · exact h.cons_erase hne hpool _

theorem put (h : r.KeptBehind pool key value) (hnodup : r.keys.Nodup) (hne : key ≠ other)
    (hpool : other ∈ pool) (hroom : (pool.filter (· ≠ key)).dedup.length < r.capacity)
    (stored : α) : (r.put other stored).KeptBehind pool key value :=
  (h.cons_erase hne hpool stored).take (nodup_cons_erase hnodup other) hroom

end KeptBehind

theorem keptBehind_put (h : 0 < r.capacity) (pool : List String) (key : String) (value : α) :
    (r.put key value).KeptBehind pool key value := by
  obtain ⟨room, hroom⟩ := Nat.exists_eq_add_one.mpr h
  refine .of_first (?_ : _ = (key, value) :: (r.erase key).entries.take room)
  rw [put, hroom, List.take_succ_cons]

theorem keptBehind_touch (h : r.find? key = some value) (pool : List String) :
    (r.touch key).KeptBehind pool key value := by
  refine .of_first (?_ : _ = (key, value) :: (r.erase key).entries)
  rw [touch, h]

end Recency

theorem Stored.isLiveAt_of_le {v : Stored} {earlier later : Span} (h : v.isLiveAt later = true)
    (hle : earlier ≤ later) : v.isLiveAt earlier = true := by
  unfold isLiveAt at h ⊢
  split
  · rfl
  · rename_i deadline hdeadline
    rw [hdeadline] at h
    exact decide_eq_true (Nat.lt_of_le_of_lt hle (of_decide_eq_true h))

namespace Memory

namespace Moment

/-- The key that is used: one that is stored, or one that is looked at and found. -/
def used? (clock : Clock Memory) (m : Memory) (moment : Moment) : Option String :=
  match moment.demand with
  | .call (.set key _ _) => some key
  | .call (.get key) =>
    match (Store.memory.perform clock (.get key) (m.atTime moment.time)).value with
    | .got (.ok _) => some key
    | _ => none
  | _ => none

def deletes (key : String) (moment : Moment) : Bool :=
  match moment.demand with
  | .call (.del keys) => keys.contains key
  | _ => false

end Moment

/-- The keys that are used by all that is asked of a memory, one after the other. -/
def usedSince (clock : Clock Memory) : Memory → List Moment → List String
  | _, [] => []
  | m, moment :: after =>
    (moment.used? clock m).toList ++ usedSince clock (moment.leaves clock m) after

/-- The value written last under a key is kept behind a pool of keys, if it lives until a time. -/
def Retains (pool : List String) (key : String) (time : Span) (moments : List Moment)
    (m : Memory) : Prop :=
  ∃ v, LastWritten moments key v ∧
    (v.isLiveAt time = true → m.values.KeptBehind pool key v)

variable {clock : Clock Memory} {m : Memory} {moments : List Moment} {moment : Moment}
variable {pool : List String} {key : String} {capacity : Nat} {time : Span}

/-! ## What a moment leaves -/

theorem fetch_of_live {v : Stored} (h : m.values.find? key = some v)
    (hlive : v.isLiveAt m.now = true) :
    fetch key m = ⟨.ok v.data, { m with values := m.values.touch key }, []⟩ := by
  simp only [fetch, h, hlive, if_true]

theorem used?_get (clock : Clock Memory) (m : Memory) (now : Span) (key : String) :
    Moment.used? clock m ⟨now, .call (.get key)⟩ =
      match (fetch key (m.atTime now)).value with
      | .ok _ => some key
      | .error _ => none := by
  simp only [Moment.used?, perform_get]
  cases (fetch key (m.atTime now)).value <;> rfl

theorem retains_set (h : 0 < m.values.capacity) (now : Span) (data : Bytes) (ttl : Span) :
    Retains pool key time (moments ++ [⟨now, .call (.set key data ttl)⟩])
      (keep key data ttl (m.atTime now)).state :=
  ⟨_, lastWritten_set now data ttl m, fun _ => Recency.keptBehind_put h pool key _⟩

theorem keptBehind_fetch_of_live {v : Stored} (h : m.values.find? key = some v)
    (hlive : v.isLiveAt m.now = true) (pool : List String) :
    (fetch key m).state.values.KeptBehind pool key v := by
  rw [fetch_of_live h hlive]
  exact Recency.keptBehind_touch h pool

/-- A look at another key counts as a use only if that key is found. -/
theorem keptBehind_fetch {v : Stored} {other : String}
    (h : m.values.KeptBehind pool key v) (hne : key ≠ other)
    (hused : ∀ data, (fetch other m).value = .ok data → other ∈ pool) :
    (fetch other m).state.values.KeptBehind pool key v := by
  revert hused
  fun_cases fetch other m with
  | case1 => exact fun _ => h
  | case2 => exact fun hused => h.touch hne (hused _ rfl)
  | case3 => exact fun _ => h.erase hne

theorem Retains.call (h : Retains pool key time moments m) (hm : m.values.WellFormed)
    {now : Span} (hnow : now ≤ time) {command : Command}
    (hdel : (Moment.mk now (.call command)).deletes key = false)
    (hused : ∀ other ∈ (Moment.mk now (.call command)).used? clock m, other ∈ pool)
    (hroom : (pool.filter (· ≠ key)).dedup.length < m.values.capacity) :
    Retains pool key time (moments ++ [⟨now, .call command⟩])
      (Store.memory.perform clock command (m.atTime now)).state := by
  obtain ⟨v, hlast, hkept⟩ := h
  cases command with
  | get looked =>
    rw [perform_get]
    rw [used?_get] at hused
    refine ⟨v, hlast.later rfl, fun hlive => ?_⟩
    by_cases hlooked : key = looked
    · subst hlooked
      -- alive at the end of the time, the value is alive now, so the look finds it
      exact keptBehind_fetch_of_live (m := m.atTime now) (hkept hlive).find?
        (Stored.isLiveAt_of_le hlive hnow) pool
    · refine keptBehind_fetch (m := m.atTime now) (hkept hlive) hlooked fun data hdata => ?_
      exact hused looked (by rw [hdata]; rfl)
  | set stored data ttl =>
    rw [perform_set]
    by_cases hstored : key = stored
    · subst hstored
      exact retains_set hm.positive now data ttl
    · refine ⟨v, hlast.later (beq_eq_false_iff_ne.mpr (Ne.symm hstored)), fun hlive => ?_⟩
      exact (hkept hlive).put hm.nodup hstored (hused stored rfl) hroom _
  | del keys =>
    rw [perform_del]
    refine ⟨v, hlast.later hdel, fun hlive => ?_⟩
    exact (hkept hlive).foldl_erase (by simpa [Moment.deletes] using hdel)

theorem Retains.leaves (h : Retains pool key time moments m) (hm : m.values.WellFormed)
    (clock : Clock Memory) (htime : moment.time ≤ time) (hdel : moment.deletes key = false)
    (hused : ∀ other ∈ moment.used? clock m, other ∈ pool)
    (hroom : (pool.filter (· ≠ key)).dedup.length < m.values.capacity) :
    Retains pool key time (moments ++ [moment]) (moment.leaves clock m) := by
  obtain ⟨now, demand⟩ := moment
  cases demand with
  | call command => exact h.call hm htime hdel hused hroom
  | size =>
    obtain ⟨v, hlast, hkept⟩ := h
    exact ⟨v, hlast.later rfl, hkept⟩

theorem lived_append (clock : Clock Memory) (capacity : Nat) (moments after : List Moment) :
    lived clock capacity (moments ++ after) =
      after.foldl (Moment.leaves clock) (lived clock capacity moments) := List.foldl_append

/-- By induction on the moments: what each of them uses is in the pool. -/
theorem Retains.run {after : List Moment} (h : Retains pool key time moments m)
    (hm : Remembers capacity moments m) (clock : Clock Memory)
    (htimes : ∀ moment ∈ after, moment.time ≤ time)
    (hdel : ∀ moment ∈ after, moment.deletes key = false)
    (hused : usedSince clock m after ⊆ pool)
    (hroom : (pool.filter (· ≠ key)).dedup.length < capacity) :
    Retains pool key time (moments ++ after) (after.foldl (Moment.leaves clock) m) := by
  induction after generalizing moments m with
  | nil => rwa [List.append_nil]
  | cons moment after ih =>
    obtain ⟨htime, htimes⟩ := List.forall_mem_cons.mp htimes
    obtain ⟨hdel₀, hdel⟩ := List.forall_mem_cons.mp hdel
    rw [usedSince, List.append_subset] at hused
    have hroom₀ : (pool.filter (· ≠ key)).dedup.length < m.values.capacity :=
      Nat.lt_of_lt_of_le hroom (hm.capacity ▸ Nat.le_max_left _ _)
    have hstep := h.leaves hm.wellFormed clock htime hdel₀
      (fun other hother => hused.1 (Option.mem_toList.mpr hother)) hroom₀
    rw [List.append_cons, List.foldl_cons]
    exact ih hstep (hm.leaves clock moment) htimes hdel hused.2

/-- A use of a key leaves the value written last there before all others. -/
theorem retains_of_used (hm : Remembers capacity moments m) (pool : List String) (time : Span)
    (hused : moment.used? clock m = some key) :
    Retains pool key time (moments ++ [moment]) (moment.leaves clock m) := by
  obtain ⟨now, demand⟩ := moment
  cases demand with
  | size => cases hused
  | call command =>
    cases command with
    | get looked =>
      rw [used?_get] at hused
      split at hused
      · rename_i data hdata
        cases hused
        obtain ⟨v, hfound, -, hlive⟩ := find?_of_fetch hdata
        refine ⟨v, (hm.written key v hfound).later rfl, fun _ => ?_⟩
        simp only [Moment.leaves, perform_get]
        exact keptBehind_fetch_of_live hfound hlive pool
      · cases hused
    | set stored data ttl =>
      cases hused
      simp only [Moment.leaves, perform_set]
      exact retains_set hm.wellFormed.positive now data ttl
    | del keys => cases hused

/-- **What is in use is kept.** Once a key was used, be it stored or looked at and found, it has a
value written last, and a look at it finds that value as long as it is due: if the key was not
deleted since, and the other keys that were used since are fewer than there is room for. What is
asked in between may be anything, at any times up to that of the look. -/
theorem get_of_used (clock : Clock Memory) (capacity : Nat) (time : Span)
    {before after : List Moment} {use : Moment} {key : String}
    (hused : use.used? clock (lived clock capacity before) = some key)
    (htimes : ∀ moment ∈ after, moment.time ≤ time)
    (hdel : ∀ moment ∈ after, moment.deletes key = false)
    (hothers : ((usedSince clock (lived clock capacity (before ++ [use])) after).filter
      (· ≠ key)).dedup.length < capacity) :
    ∃ since data ttl,
      lastWrite key (before ++ use :: after) = some ⟨since, .call (.set key data ttl)⟩ ∧
      (Due since ttl time →
        (Store.memory.perform clock (.get key)
          ((lived clock capacity (before ++ use :: after)).atTime time)).value =
            .got (.ok data)) := by
  have hstart := retains_of_used (remembers_lived clock capacity before)
    (usedSince clock (lived clock capacity (before ++ [use])) after) time hused
  have hlived : lived clock capacity (before ++ [use]) =
      use.leaves clock (lived clock capacity before) := lived_append clock capacity before [use]
  rw [← hlived] at hstart
  obtain ⟨v, ⟨since, ttl, hlast, hlive⟩, hkept⟩ := hstart.run
    (remembers_lived clock capacity _) clock htimes hdel (List.Subset.refl _) hothers
  rw [← List.append_cons] at hlast
  rw [← lived_append, ← List.append_cons] at hkept
  refine ⟨since, v.data, ttl, hlast, fun hdue => ?_⟩
  have hdue := (hlive time).mpr hdue
  have hfound : ((lived clock capacity (before ++ use :: after)).atTime time).values.find? key =
      some v := (hkept hdue).find?
  rw [perform_get, fetch_of_live hfound hdue]

/-- Two keys are stored, and the first of them is read. -/
def twoStored : List Moment :=
  [⟨⟨0⟩, .call (.set "a" [1] ⟨9⟩)⟩, ⟨⟨1⟩, .call (.set "b" [2] ⟨9⟩)⟩]

def firstRead : Moment := ⟨⟨2⟩, .call (.get "a")⟩

/-- A third key is stored and read, and the second one, which had to go, is not found. -/
def thirdUsed : List Moment :=
  [⟨⟨3⟩, .call (.set "c" [3] ⟨9⟩)⟩, ⟨⟨4⟩, .call (.get "b")⟩, ⟨⟨5⟩, .call (.get "c")⟩,
    ⟨⟨6⟩, .call (.del ["b"])⟩]

theorem get_first_of_two :
    (Store.memory.perform ⟨fun _ => 0, elapse⟩ (.get "a")
      ((lived ⟨fun _ => 0, elapse⟩ 2 (twoStored ++ firstRead :: thirdUsed)).atTime ⟨8⟩)).value =
        .got (.ok [1]) := by
  have hused : firstRead.used? ⟨fun _ => 0, elapse⟩ (lived ⟨fun _ => 0, elapse⟩ 2 twoStored) =
      some "a" := by decide
  have hothers : ((usedSince ⟨fun _ => 0, elapse⟩
      (lived ⟨fun _ => 0, elapse⟩ 2 (twoStored ++ [firstRead])) thirdUsed).filter
        (· ≠ "a")).dedup.length < 2 := by decide
  obtain ⟨since, data, ttl, hlast, hget⟩ :=
    get_of_used ⟨fun _ => 0, elapse⟩ 2 ⟨8⟩ hused (by decide) (by decide) hothers
  have hset : lastWrite "a" (twoStored ++ firstRead :: thirdUsed) =
      some ⟨⟨0⟩, .call (.set "a" [1] ⟨9⟩)⟩ := by decide
  rw [hset] at hlast
  cases hlast
  exact hget (.inl (by decide))

end Memory
end HttpCache
