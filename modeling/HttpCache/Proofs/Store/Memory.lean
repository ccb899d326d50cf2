import HttpCache.Proofs.Store.Recency
import HttpCache.Store.Memory

/-!
# HttpCache.Proofs.Store.Memory

The octets that a backend in memory holds, and calls that take no time.

* `Memory.data?` — the octets under a key, live or not.
* `of_data?_fetch`, `of_data?_keep`, `data?_drop` — what each call leaves of them.
* `fetch_of_find?`, `isLiveAt_deadline_iff` — what a call gives, and until when.
* `Alike` — two memories hold the same under some keys. A call keeps them alike, and a look at one
  of the keys gives the same in both (`Alike.value_fetch`); calls for other keys do not matter
  (`alike_fetch`, `alike_keep`, `alike_drop`).
* `Call.within_immediate`, `Call.immediate_on` — no limit matters to a call that takes no time.
-/

namespace HttpCache
namespace Memory

/-- The octets under a key, live or not. -/
def data? (m : Memory) (key : String) : Option Bytes := (m.values.find? key).map (·.data)

variable {m : Memory} {key other : String} {data : Bytes}

@[simp] theorem data?_empty (capacity : Nat) (key : String) :
    (empty capacity).data? key = none := by
  rw [data?, empty, Recency.find?_empty, Option.map_none]

@[simp] theorem data?_elapse (span : Span) (m : Memory) (key : String) :
    (m.elapse span).data? key = m.data? key := rfl

@[simp] theorem elapse_zero (m : Memory) : m.elapse .zero = m := rfl

theorem fetch_of_find? {v : Stored} (h : m.values.find? key = some v) :
    (fetch key m).value =
      if v.isLiveAt m.now = true then .ok v.data else .error (.notFound key) := by
  simp only [fetch, h]
  split <;> rfl

/-- A look at a key loses the value there if it is dead, and changes nothing else. -/
theorem find?_fetch (key other : String) (m : Memory) :
    (fetch key m).state.values.find? other =
      if other = key then (m.values.find? key).filter (·.isLiveAt m.now)
      else m.values.find? other := by
  unfold fetch
  split
  · rename_i hnone
    split
    · rename_i h
      rw [h, hnone, Option.filter_none]
    · rfl
  · rename_i v hv
    rw [hv, Option.filter_some]
    split
    · split
      · rename_i h
        rw [Recency.find?_touch, h, hv]
      · exact Recency.find?_touch _ _ _
    · exact Recency.find?_erase _ _ _

theorem find?_fetch_of_ne (h : other ≠ key) :
    (fetch key m).state.values.find? other = m.values.find? other := by
  rw [find?_fetch, if_neg h]

theorem of_find?_fetch {v : Stored} (h : (fetch key m).state.values.find? other = some v) :
    m.values.find? other = some v := by
  rw [find?_fetch] at h
  split at h
  · rename_i he
    rw [he]
    exact (Option.filter_eq_some_iff.mp h).1
  · exact h

theorem fetch_eq_of_error {e : CacheError} (h : (fetch key m).value = .error e) :
    e = .notFound key := by
  unfold fetch at h
  split at h
  · cases h
    rfl
  · split at h
    · cases h
    · cases h
      rfl

theorem find?_of_fetch (h : (fetch key m).value = .ok data) :
    ∃ v, m.values.find? key = some v ∧ v.data = data ∧ v.isLiveAt m.now = true := by
  unfold fetch at h
  split at h
  · cases h
  · rename_i v hv
    split at h
    · rename_i hlive
      cases h
      exact ⟨v, hv, rfl, hlive⟩
    · cases h

theorem data?_of_fetch (h : (fetch key m).value = .ok data) : m.data? key = some data := by
  obtain ⟨v, hv, rfl, -⟩ := find?_of_fetch h
  rw [data?, hv, Option.map_some]

theorem wellFormed_fetch (h : m.values.WellFormed) (key : String) :
    (fetch key m).state.values.WellFormed := by
  unfold fetch
  split
  · exact h
  · split
    · exact h.touch key
    · exact h.erase key

theorem capacity_fetch (key : String) (m : Memory) :
    (fetch key m).state.values.capacity = m.values.capacity := by
  unfold fetch
  split
  · rfl
  · split
    · exact Recency.capacity_touch _ _
    · rfl

@[simp] theorem now_fetch (key : String) (m : Memory) : (fetch key m).state.now = m.now := by
  unfold fetch
  split
  · rfl
  · split <;> rfl

theorem erase_fetch (key : String) (m : Memory) :
    (fetch key m).state.values.erase key = m.values.erase key := by
  unfold fetch
  split
  · rfl
  · split
    · exact Recency.erase_touch _ _
    · exact Recency.erase_erase _ _

/-- A look at a key makes no difference to the room for it. -/
theorem hasRoom_fetch (key : String) (m : Memory) :
    (fetch key m).state.values.HasRoom key ↔ m.values.HasRoom key := by
  rw [Recency.HasRoom, Recency.HasRoom, erase_fetch]

/-- A value is alive until its time is over, and always if no clock reaches the end of it. -/
theorem isLiveAt_deadline_iff (m : Memory) (data : Bytes) (ttl time : Span) :
    (⟨data, m.deadline ttl⟩ : Stored).isLiveAt time = true ↔
      time < m.now + ttl ∨ horizon ≤ (m.now + ttl).seconds := by
  by_cases hreached : (m.now + ttl).seconds < horizon
  · have hdeadline : m.deadline ttl = some (m.now + ttl) := if_pos hreached
    simp only [Stored.isLiveAt, hdeadline, decide_eq_true_iff]
    exact ⟨.inl, Or.rec id fun hfar => absurd hfar (Nat.not_le_of_lt hreached)⟩
  · have hdeadline : m.deadline ttl = none := if_neg hreached
    simp only [Stored.isLiveAt, hdeadline, true_iff]
    exact .inr (Nat.le_of_not_lt hreached)

/-- A value that is kept for whole seconds is alive until just these have gone by, at least as
far as the clock reaches. -/
theorem isLiveAt_deadline {m m' : Memory} {gone kept : Nat}
    (hnow : m'.now = m.now + .ofSeconds gone) (hreached : m'.now.seconds < horizon)
    (data : Bytes) :
    (⟨data, m.deadline (.ofSeconds kept)⟩ : Stored).isLiveAt m'.now = true ↔ gone < kept := by
  have hnanos : m'.now.nanos = m.now.nanos + gone * 1000000000 := by rw [hnow]; rfl
  have hend : (m.now + Span.ofSeconds kept).nanos = m.now.nanos + kept * 1000000000 := rfl
  have hlt : m'.now < m.now + Span.ofSeconds kept ↔
      m'.now.nanos < (m.now + Span.ofSeconds kept).nanos := Iff.rfl
  simp only [Span.seconds, hnanos] at hreached
  simp only [isLiveAt_deadline_iff, hlt, Span.seconds, hnanos, hend]
  omega

theorem of_data?_fetch (h : (fetch key m).state.data? other = some data) :
    m.data? other = some data := by
  rw [data?, Option.map_eq_some_iff] at h
  obtain ⟨v, hv, rfl⟩ := h
  rw [data?, of_find?_fetch hv, Option.map_some]

/-- Storing adds nothing but what is stored, and takes the place of what was held before. -/
theorem of_data?_keep {stored : Bytes} {ttl : Span}
    (h : (keep key stored ttl m).state.data? other = some data) :
    (other = key ∧ data = stored) ∨ (other ≠ key ∧ m.data? other = some data) := by
  simp only [keep, data?, Option.map_eq_some_iff] at h
  obtain ⟨v, hv, rfl⟩ := h
  rcases Recency.of_find?_put hv with ⟨hk, rfl⟩ | ⟨hk, hv⟩
  · exact .inl ⟨hk, rfl⟩
  · exact .inr ⟨hk, by rw [data?, hv, Option.map_some]⟩

theorem data?_drop (keys : List String) (m : Memory) (other : String) :
    (drop keys m).state.data? other = if other ∈ keys then none else m.data? other := by
  simp only [drop, data?, Recency.find?_foldl_erase]
  split
  · rfl
  · rfl

/-! ## Memories that hold the same -/

/-- The memories hold the same under all keys of a set, in whatever order of use. -/
def Alike (shown : String → Prop) (m m' : Memory) : Prop :=
  ∀ key, shown key → m.values.find? key = m'.values.find? key

section Alike

variable {shown : String → Prop} {m' : Memory}

theorem Alike.value_fetch (h : Alike shown m m') (hnow : m.now = m'.now) (hkey : shown key) :
    (fetch key m).value = (fetch key m').value := by
  unfold fetch
  rw [h key hkey, hnow]
  split
  · rfl
  · split <;> rfl

theorem Alike.fetch (h : Alike shown m m') (hnow : m.now = m'.now) (key : String) :
    Alike shown (fetch key m).state (fetch key m').state := by
  intro other hother
  rw [find?_fetch, find?_fetch, hnow, h other hother]
  split
  · rename_i he
    rw [← he, h other hother]
  · rfl

theorem Alike.keep (h : Alike shown m m') (hnow : m.now = m'.now) (hroom : m.values.HasRoom key)
    (hroom' : m'.values.HasRoom key) (data : Bytes) (ttl : Span) :
    Alike shown (keep key data ttl m).state (keep key data ttl m').state := by
  intro other hother
  have hdeadline : m.deadline ttl = m'.deadline ttl := by rw [deadline, deadline, hnow]
  simp only [Memory.keep, Recency.find?_put hroom, Recency.find?_put hroom', hdeadline,
    h other hother]

theorem Alike.drop (h : Alike shown m m') (keys : List String) :
    Alike shown (drop keys m).state (drop keys m').state := by
  intro other hother
  simp only [Memory.drop, Recency.find?_foldl_erase, h other hother]

theorem alike_fetch (hkey : ¬shown key) (m : Memory) : Alike shown (fetch key m).state m := by
  intro other hother
  have hne : other ≠ key := fun he => hkey (he ▸ hother)
  exact find?_fetch_of_ne hne

theorem alike_keep (hkey : ¬shown key) (hroom : m.values.HasRoom key) (data : Bytes)
    (ttl : Span) : Alike shown (keep key data ttl m).state m := by
  intro other hother
  have hne : other ≠ key := fun he => hkey (he ▸ hother)
  exact (Recency.find?_put hroom _ _).trans (if_neg hne)

theorem alike_drop {keys : List String} (hkeys : ∀ key ∈ keys, ¬shown key) (m : Memory) :
    Alike shown (drop keys m).state m := by
  intro other hother
  have hnot : other ∉ keys := fun he => hkeys other he hother
  exact (Recency.find?_foldl_erase _ _ _).trans (if_neg hnot)

end Alike

end Memory

namespace Call

variable {σ τ α : Type}

theorem within_immediate (clock : Clock σ) (limit : Option Span) (operation : Operation)
    (x : Act σ (Except CacheError α)) : (immediate x).within clock limit operation = x := by
  cases limit with
  | none => simp [within, run, immediate, wait]
  | some limit =>
    have hlimit : ¬limit < Span.zero := Nat.not_lt_zero limit.nanos
    simp [within, immediate, wait, hlimit]

theorem immediate_on (part : Part σ τ) (hpart : ∀ s, part.set (part.get s) s = s)
    (x : Act τ (Except CacheError α)) : (immediate x).on part = immediate (x.on part) := by
  have hpure : (pure Span.zero : Act τ Span).on part = pure Span.zero := by
    funext s
    simp [Act.on, hpart]
  simp only [on, immediate, hpure]

end Call
end HttpCache
