import HttpCache.Proofs.Store.Memory

/-!
# HttpCache.Proofs.Store.History

What a memory gives back, judged by all that was asked of it before.

* `Command`, `Store.perform` — the three calls of a backend as data, and how one is made.
* `Moment`, `Memory.lived` — what is asked of a memory and when, and what an empty one becomes.
* `lastWrite` — the last moment at which a key was stored or deleted.
* `Remembers` — the invariant: distinct keys within the capacity, and each value is the last one
  written under its key.
* `Honest`, `honest_of_lived` — what a look at a key may give.
-/

namespace HttpCache

/-- A call of a backend. -/
inductive Command where
  | get (key : String)
  | set (key : String) (data : Bytes) (ttl : Span)
  | del (keys : List String)
  deriving DecidableEq, Repr

inductive Reply where
  | got (result : Except CacheError Bytes)
  | done (result : Except CacheError Unit)
  deriving DecidableEq

def Store.perform {σ : Type} (clock : Clock σ) (store : Store σ) : Command → Act σ Reply
  | .get key => do
    let result ← (store.get key).run clock
    pure (.got result)
  | .set key data ttl => do
    let result ← (store.set key data ttl).run clock
    pure (.done result)
  | .del keys => do
    let result ← (store.del keys).run clock
    pure (.done result)

namespace Memory

/-- A memory whose clock shows a time. -/
def atTime (time : Span) (m : Memory) : Memory := { m with now := time }

/-- What is asked of a memory. -/
inductive Demand where
  | call (command : Command)
  /-- The number of values. -/
  | size
  deriving DecidableEq, Repr

structure Moment where
  time : Span
  demand : Demand
  deriving DecidableEq, Repr

namespace Moment

def leaves (clock : Clock Memory) (m : Memory) (moment : Moment) : Memory :=
  match moment.demand with
  | .call command => (Store.memory.perform clock command (m.atTime moment.time)).state
  | .size => m.atTime moment.time

/-- Whether a key is stored or deleted, be it one of many. -/
def writes (key : String) (moment : Moment) : Bool :=
  match moment.demand with
  | .call (.set stored _ _) => stored == key
  | .call (.del keys) => keys.contains key
  | _ => false

end Moment

/-- What an empty memory becomes by all that is asked of it. Times may be any, in any order. -/
def lived (clock : Clock Memory) (capacity : Nat) (moments : List Moment) : Memory :=
  moments.foldl (Moment.leaves clock) (empty capacity)

def lastWrite (key : String) (moments : List Moment) : Option Moment :=
  (moments.filter (·.writes key)).getLast?

/-- A value stored at `since` may be given back at a time: its own time is not over, or ends
where no clock reaches. -/
def Due (since ttl time : Span) : Prop :=
  time < since + ttl ∨ horizon ≤ (since + ttl).seconds

/-- The value is what was written last under the key. -/
def LastWritten (moments : List Moment) (key : String) (v : Stored) : Prop :=
  ∃ since ttl, lastWrite key moments = some ⟨since, .call (.set key v.data ttl)⟩ ∧
    ∀ time, v.isLiveAt time = true ↔ Due since ttl time

structure Remembers (capacity : Nat) (moments : List Moment) (m : Memory) : Prop where
  wellFormed : m.values.WellFormed
  capacity : m.values.capacity = max capacity 1
  written : ∀ key v, m.values.find? key = some v → LastWritten moments key v

/-- What a look at a key may give after some moments: the value written last under it, while that
is due, or that nothing is found there. -/
inductive Honest (moments : List Moment) (time : Span) (key : String) : Reply → Prop where
  | found {data : Bytes} {since ttl : Span}
      (hlast : lastWrite key moments = some ⟨since, .call (.set key data ttl)⟩)
      (hdue : Due since ttl time) : Honest moments time key (.got (.ok data))
  | missing : Honest moments time key (.got (.error (.notFound key)))

variable {clock : Clock Memory} {m : Memory} {moments : List Moment} {moment : Moment}
variable {key : String} {capacity : Nat}

/-! ## Calls as data -/

theorem perform_get (clock : Clock Memory) (key : String) (m : Memory) :
    Store.memory.perform clock (.get key) m =
      ⟨.got (fetch key m).value, (fetch key m).state, (fetch key m).events⟩ := by
  simp [Store.perform, Store.memory, Call.run, Call.immediate, Call.wait]

theorem perform_set (clock : Clock Memory) (key : String) (data : Bytes) (ttl : Span)
    (m : Memory) :
    Store.memory.perform clock (.set key data ttl) m =
      ⟨.done (.ok ()), (keep key data ttl m).state, []⟩ := by
  simp [Store.perform, Store.memory, Call.run, Call.immediate, Call.wait, keep]

theorem perform_del (clock : Clock Memory) (keys : List String) (m : Memory) :
    Store.memory.perform clock (.del keys) m = ⟨.done (.ok ()), (drop keys m).state, []⟩ := by
  simp [Store.perform, Store.memory, Call.run, Call.immediate, Call.wait, drop]

theorem wellFormed_perform (h : m.values.WellFormed) (clock : Clock Memory)
    (command : Command) :
    (Store.memory.perform clock command m).state.values.WellFormed := by
  cases command with
  | get key =>
    rw [perform_get]
    exact wellFormed_fetch h key
  | set key data ttl =>
    rw [perform_set]
    exact h.put key _
  | del keys =>
    rw [perform_del]
    exact h.foldl_erase keys

theorem capacity_perform (clock : Clock Memory) (command : Command) (m : Memory) :
    (Store.memory.perform clock command m).state.values.capacity = m.values.capacity := by
  cases command with
  | get key =>
    rw [perform_get]
    exact capacity_fetch key m
  | set key data ttl =>
    rw [perform_set]
    rfl
  | del keys =>
    rw [perform_del]
    exact Recency.capacity_foldl_erase keys _

/-! ## The last write -/

theorem lastWrite_append (key : String) (moments : List Moment) (moment : Moment) :
    lastWrite key (moments ++ [moment]) =
      if moment.writes key = true then some moment else lastWrite key moments := by
  rw [lastWrite, List.filter_append]
  cases hw : moment.writes key with
  | true => simp [hw]
  | false => simp [hw, lastWrite]

theorem LastWritten.later {v : Stored} (h : LastWritten moments key v)
    (hw : moment.writes key = false) : LastWritten (moments ++ [moment]) key v := by
  rw [LastWritten, lastWrite_append, hw]
  exact h

theorem lastWritten_set (time : Span) (data : Bytes) (ttl : Span) (m : Memory) :
    LastWritten (moments ++ [⟨time, .call (.set key data ttl)⟩]) key
      ⟨data, (m.atTime time).deadline ttl⟩ := by
  refine ⟨time, ttl, ?_, isLiveAt_deadline_iff (m.atTime time) data ttl⟩
  rw [lastWrite_append, if_pos (by simp [Moment.writes])]

/-! ## What each moment leaves -/

theorem remembers_empty (capacity : Nat) : Remembers capacity [] (empty capacity) where
  wellFormed := Recency.wellFormed_empty capacity
  capacity := rfl
  written key v h := by cases h

theorem Remembers.call (h : Remembers capacity moments m) (clock : Clock Memory) (time : Span)
    (command : Command) :
    Remembers capacity (moments ++ [⟨time, .call command⟩])
      (Store.memory.perform clock command (m.atTime time)).state where
  wellFormed := wellFormed_perform (m := m.atTime time) h.wellFormed clock command
  capacity := (capacity_perform clock command _).trans h.capacity
  written key v hv := by
    cases command with
    | get looked =>
      rw [perform_get] at hv
      have hv' : (m.atTime time).values.find? key = some v := of_find?_fetch hv
      exact (h.written key v hv').later rfl
    | set stored data ttl =>
      rw [perform_set] at hv
      rcases Recency.of_find?_put hv with ⟨rfl, rfl⟩ | ⟨hne, hv⟩
      · exact lastWritten_set time data ttl m
      · exact (h.written key v hv).later (beq_eq_false_iff_ne.mpr (Ne.symm hne))
    | del keys =>
      rw [perform_del] at hv
      simp only [drop, Recency.find?_foldl_erase] at hv
      split at hv
      · cases hv
      · rename_i hnot
        exact (h.written key v hv).later (by simpa [Moment.writes] using hnot)

theorem Remembers.leaves (h : Remembers capacity moments m) (clock : Clock Memory)
    (moment : Moment) :
    Remembers capacity (moments ++ [moment]) (moment.leaves clock m) := by
  obtain ⟨time, demand⟩ := moment
  cases demand with
  | call command => exact h.call clock time command
  | size => exact ⟨h.wellFormed, h.capacity, fun key v hv => (h.written key v hv).later rfl⟩

theorem remembers_lived (clock : Clock Memory) (capacity : Nat) (moments : List Moment) :
    Remembers capacity moments (lived clock capacity moments) := by
  -- from any moments on, so that the induction can move over the list
  have hrun : ∀ past m, Remembers capacity past m →
      Remembers capacity (past ++ moments) (moments.foldl (Moment.leaves clock) m) := by
    induction moments with
    | nil =>
      intro past m h
      rwa [List.append_nil]
    | cons moment moments ih =>
      intro past m h
      rw [List.append_cons, List.foldl_cons]
      exact ih _ _ (h.leaves clock moment)
  exact hrun [] _ (remembers_empty capacity)

theorem Remembers.honest (h : Remembers capacity moments m) (clock : Clock Memory) (time : Span)
    (key : String) :
    Honest moments time key (Store.memory.perform clock (.get key) (m.atTime time)).value := by
  rw [perform_get]
  cases hv : (fetch key (m.atTime time)).value with
  | error e =>
    rw [fetch_eq_of_error hv]
    exact .missing
  | ok data =>
    obtain ⟨v, hfound, rfl, hlive⟩ := find?_of_fetch hv
    obtain ⟨since, ttl, hlast, hdue⟩ := h.written key v hfound
    exact .found hlast ((hdue time).mp hlive)

/-- **A memory never lies and stays within its capacity.** After anything that was asked of an
empty one, at any times, its keys are distinct and no more than its capacity (one, when it was
made for none), and a look at a key, at whatever time, gives the value that was written there
last and is still due, or names the key as one that is not found. -/
theorem honest_of_lived (clock : Clock Memory) (capacity : Nat) (moments : List Moment) :
    (lived clock capacity moments).values.keys.Nodup ∧
      (lived clock capacity moments).values.size ≤ max capacity 1 ∧
      ∀ time key, Honest moments time key
        (Store.memory.perform clock (.get key)
          ((lived clock capacity moments).atTime time)).value := by
  have h := remembers_lived clock capacity moments
  refine ⟨h.wellFormed.nodup, ?_, fun time key => h.honest clock time key⟩
  rw [← h.capacity]
  exact h.wellFormed.bounded

end Memory
end HttpCache
