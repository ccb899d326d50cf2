import HttpCache.Proofs.Store.History

/-!
# HttpCache.Proofs.Store.Isolation

Tenants that share one memory, each behind a prefix of its own.

* `Apart` — neither prefix begins with the other; then no key of the one is a key of the other
  (`Apart.not_begins`).
* `TenantCall`, `seen` — a call through a prefix, and what one tenant gets back in a run.
* `Within` — the memory holds keys of a pool that it has room for; no call has to make room.
* `seen_filter_tenant` — a tenant gets back what it would without the others.
-/

namespace HttpCache

/-- The full keys that a call names. -/
def Command.keys : Command → List String
  | .get key => [key]
  | .set key _ _ => [key]
  | .del keys => keys

/-- The full keys that a call stores under. -/
def Command.stored : Command → List String
  | .set key _ _ => [key]
  | _ => []

def Command.prefixed (start : String) : Command → Command
  | .get key => .get (start ++ key)
  | .set key data ttl => .set (start ++ key) data ttl
  | .del keys => .del (keys.map (start ++ ·))

theorem perform_prefixed {σ : Type} (clock : Clock σ) (store : Store σ) (start : String)
    (command : Command) :
    (store.prefixed start).perform clock command =
      store.perform clock (command.prefixed start) := by
  cases command <;> rfl

namespace Memory

/-- The key begins with the prefix. -/
def Begins (start key : String) : Prop := start.toList <+: key.toList

/-- Neither prefix begins with the other. -/
def Apart (p q : String) : Prop := ¬Begins p q ∧ ¬Begins q p

instance (start key : String) : Decidable (Begins start key) :=
  inferInstanceAs (Decidable (start.toList <+: key.toList))

instance (p q : String) : Decidable (Apart p q) :=
  inferInstanceAs (Decidable (¬Begins p q ∧ ¬Begins q p))

/-- A call that a tenant makes. -/
structure TenantCall where
  /-- The prefix of the tenant. -/
  tenant : String
  time : Span
  command : Command
  deriving DecidableEq, Repr

namespace TenantCall

/-- The call as it comes to the memory. -/
def full (call : TenantCall) : Command := call.command.prefixed call.tenant

def perform (clock : Clock Memory) (call : TenantCall) (m : Memory) : Outcome Memory Reply :=
  (Store.memory.prefixed call.tenant).perform clock call.command (m.atTime call.time)

end TenantCall

/-- What a tenant gets back, call by call, in a run of calls by all tenants. -/
def seen (clock : Clock Memory) (p : String) : List TenantCall → Memory → List Reply
  | [], _ => []
  | call :: calls, m =>
    let out := call.perform clock m
    if call.tenant = p then out.value :: seen clock p calls out.state
    else seen clock p calls out.state

/-- All keys of the memory are in a pool, and it has room for the whole pool. -/
structure Within (pool : List String) (m : Memory) : Prop where
  wellFormed : m.values.WellFormed
  subset : m.values.keys ⊆ pool
  room : pool.dedup.length ≤ m.values.capacity

variable {clock : Clock Memory} {m m' : Memory} {shown : String → Prop} {pool : List String}
variable {p q : String} {command : Command} {call : TenantCall} {calls : List TenantCall}

/-! ## Keys of different tenants -/

theorem begins_append (start key : String) : Begins start (start ++ key) := by
  rw [Begins, String.toList_append]
  exact List.prefix_append _ _

theorem Apart.not_begins (h : Apart p q) (key : String) : ¬Begins p (q ++ key) := by
  intro hp
  rcases List.prefix_or_prefix_of_prefix hp (begins_append q key) with hpq | hqp
  · exact h.1 hpq
  · exact h.2 hqp

theorem begins_of_mem_keys {start key : String} (h : key ∈ (command.prefixed start).keys) :
    ∃ rest, key = start ++ rest := by
  cases command with
  | get rest => exact ⟨rest, List.mem_singleton.mp h⟩
  | set rest data ttl => exact ⟨rest, List.mem_singleton.mp h⟩
  | del keys =>
    obtain ⟨rest, -, rfl⟩ := List.mem_map.mp h
    exact ⟨rest, rfl⟩

/-! ## Room for all keys -/

theorem Within.hasRoom (h : Within pool m) {key : String} (hkey : key ∈ pool) :
    m.values.HasRoom key :=
  Recency.hasRoom_of_subset h.wellFormed.nodup h.subset hkey h.room

theorem Within.atTime (h : Within pool m) (time : Span) : Within pool (m.atTime time) :=
  ⟨h.wellFormed, h.subset, h.room⟩

theorem of_find?_perform {key : String} {v : Stored}
    (h : (Store.memory.perform clock command m).state.values.find? key = some v) :
    (∃ old, m.values.find? key = some old) ∨ key ∈ command.stored := by
  cases command with
  | get looked =>
    rw [perform_get] at h
    exact .inl ⟨v, of_find?_fetch h⟩
  | set stored data ttl =>
    rw [perform_set] at h
    rcases Recency.of_find?_put h with ⟨rfl, -⟩ | ⟨-, h⟩
    · exact .inr (List.mem_singleton.mpr rfl)
    · exact .inl ⟨v, h⟩
  | del keys =>
    rw [perform_del] at h
    simp only [drop, Recency.find?_foldl_erase] at h
    split at h
    · cases h
    · exact .inl ⟨v, h⟩

theorem Within.perform (h : Within pool m) (clock : Clock Memory)
    (hstored : command.stored ⊆ pool) :
    Within pool (Store.memory.perform clock command m).state where
  wellFormed := wellFormed_perform h.wellFormed clock command
  subset key hkey := by
    obtain ⟨v, hv⟩ := Recency.mem_keys_iff.mp hkey
    rcases of_find?_perform hv with hold | hnew
    · exact h.subset (Recency.mem_keys_iff.mpr hold)
    · exact hstored hnew
  room := by
    rw [capacity_perform]
    exact h.room

/-! ## One call in two memories -/

/-- A call gives the same in two memories that are alike where it looks, and leaves them alike. -/
theorem Alike.perform (h : Alike shown m m') (hnow : m.now = m'.now) (clock : Clock Memory)
    (hkeys : ∀ key ∈ command.keys, shown key) (hw : Within pool m) (hw' : Within pool m')
    (hstored : command.stored ⊆ pool) :
    (Store.memory.perform clock command m).value = (Store.memory.perform clock command m').value ∧
      Alike shown (Store.memory.perform clock command m).state
        (Store.memory.perform clock command m').state := by
  cases command with
  | get key =>
    rw [perform_get, perform_get, h.value_fetch hnow (hkeys key (List.mem_singleton.mpr rfl))]
    exact ⟨rfl, h.fetch hnow key⟩
  | set key data ttl =>
    have hkey : key ∈ pool := hstored (List.mem_singleton.mpr rfl)
    rw [perform_set, perform_set]
    exact ⟨rfl, h.keep hnow (hw.hasRoom hkey) (hw'.hasRoom hkey) data ttl⟩
  | del keys =>
    rw [perform_del, perform_del]
    exact ⟨rfl, h.drop keys⟩

/-- A call that names none of the keys changes nothing under them. -/
theorem alike_perform (clock : Clock Memory) (hkeys : ∀ key ∈ command.keys, ¬shown key)
    (hw : Within pool m) (hstored : command.stored ⊆ pool) :
    Alike shown (Store.memory.perform clock command m).state m := by
  cases command with
  | get key =>
    rw [perform_get]
    exact alike_fetch (hkeys key (List.mem_singleton.mpr rfl)) m
  | set key data ttl =>
    rw [perform_set]
    exact alike_keep (hkeys key (List.mem_singleton.mpr rfl))
      (hw.hasRoom (hstored (List.mem_singleton.mpr rfl))) data ttl
  | del keys =>
    rw [perform_del]
    exact alike_drop hkeys m

/-! ## A run of calls -/

theorem perform_eq (clock : Clock Memory) (call : TenantCall) (m : Memory) :
    call.perform clock m = Store.memory.perform clock call.full (m.atTime call.time) := by
  rw [TenantCall.perform, perform_prefixed, TenantCall.full]

/-- By induction on the calls: the memory of the whole run and that of the tenant's own run hold
the same under all keys of the tenant, and neither ever makes room. -/
theorem seen_filter_of_alike (halike : Alike (Begins p) m m') (hw : Within pool m)
    (hw' : Within pool m') (hothers : ∀ call ∈ calls, call.tenant = p ∨ Apart p call.tenant)
    (hstored : ∀ call ∈ calls, call.full.stored ⊆ pool) :
    seen clock p calls m = seen clock p (calls.filter (·.tenant = p)) m' := by
  induction calls generalizing m m' with
  | nil => rfl
  | cons call calls ih =>
    have hothers' := fun other hmem => hothers other (List.mem_cons_of_mem call hmem)
    have hstored' := fun other hmem => hstored other (List.mem_cons_of_mem call hmem)
    have hpool := hstored call List.mem_cons_self
    have hnext := (hw.atTime call.time).perform clock hpool
    by_cases hp : call.tenant = p
    · have hkeys : ∀ key ∈ call.full.keys, Begins p key := by
        intro key hkey
        obtain ⟨rest, rfl⟩ := begins_of_mem_keys hkey
        rw [hp]
        exact begins_append p rest
      have hboth : Alike (Begins p) (m.atTime call.time) (m'.atTime call.time) := halike
      obtain ⟨hvalue, hafter⟩ := hboth.perform rfl clock hkeys (hw.atTime _) (hw'.atTime _) hpool
      rw [List.filter_cons_of_pos (by simpa using hp), seen, seen, if_pos hp, if_pos hp,
        perform_eq, perform_eq, hvalue]
      exact congrArg _
        (ih hafter hnext ((hw'.atTime _).perform clock hpool) hothers' hstored')
    · have hapart := (hothers call List.mem_cons_self).resolve_left hp
      have hkeys : ∀ key ∈ call.full.keys, ¬Begins p key := by
        intro key hkey
        obtain ⟨rest, rfl⟩ := begins_of_mem_keys hkey
        exact hapart.not_begins rest
      have hunchanged := alike_perform clock hkeys (hw.atTime call.time) hpool
      have hafter : Alike (Begins p)
          (Store.memory.perform clock call.full (m.atTime call.time)).state m' :=
        fun key hkey => (hunchanged key hkey).trans (halike key hkey)
      rw [List.filter_cons_of_neg (by simpa using hp), seen, if_neg hp, perform_eq]
      exact ih hafter hnext hw' hothers' hstored'

/-- **Tenants with prefixes apart do not notice each other.** In a memory with room for all keys
that it holds and that are ever stored, a tenant gets back from its calls, at whatever times, what
it would get without the calls of the other tenants. -/
theorem seen_filter_tenant (clock : Clock Memory) {p : String} {calls : List TenantCall}
    {m : Memory} (hothers : ∀ call ∈ calls, call.tenant = p ∨ Apart p call.tenant)
    (hm : m.values.WellFormed)
    (hroom : (m.values.keys ++ calls.flatMap fun call => call.full.stored).dedup.length ≤
      m.values.capacity) :
    seen clock p calls m = seen clock p (calls.filter (·.tenant = p)) m := by
  have hw : Within (m.values.keys ++ calls.flatMap fun call => call.full.stored) m :=
    ⟨hm, List.subset_append_left _ _, hroom⟩
  refine seen_filter_of_alike (fun _ _ => rfl) hw hw hothers fun call hcall key hkey => ?_
  exact List.mem_append_right _ (List.mem_flatMap.mpr ⟨call, hcall, hkey⟩)

/-- Two tenants over a memory with an old value in it; the second one uses the full key of the
first as a key of its own, and deletes what it can name. -/
def twoTenants : List TenantCall :=
  [⟨"a:", .ofSeconds 10, .set "x" [1] (.ofSeconds 60)⟩,
    ⟨"b:", .ofSeconds 20, .set "a:x" [2] (.ofSeconds 60)⟩,
    ⟨"b:", .ofSeconds 30, .del ["x", "a:x", ""]⟩,
    ⟨"a:", .ofSeconds 69, .get "x"⟩,
    ⟨"b:", .ofSeconds 70, .get "a:x"⟩,
    ⟨"a:", .ofSeconds 70, .get "x"⟩]

theorem seen_filter_two_tenants :
    let m := (keep "old" [0] (.ofSeconds 5) (empty 3)).state
    (∀ call ∈ twoTenants, call.tenant = "a:" ∨ Apart "a:" call.tenant) ∧
      m.values.WellFormed ∧
      (m.values.keys ++ twoTenants.flatMap fun call => call.full.stored).dedup.length ≤
        m.values.capacity ∧
      seen ⟨fun _ => 0, elapse⟩ "a:" twoTenants m =
        [.done (.ok ()), .got (.ok [1]), .got (.error (.notFound "a:x"))] ∧
      seen ⟨fun _ => 0, elapse⟩ "a:" (twoTenants.filter (·.tenant = "a:")) m =
        [.done (.ok ()), .got (.ok [1]), .got (.error (.notFound "a:x"))] := by
  intro m
  have hothers : ∀ call ∈ twoTenants, call.tenant = "a:" ∨ Apart "a:" call.tenant := by decide
  have hm : m.values.WellFormed := (Recency.wellFormed_empty 3).put "old" _
  have hroom : (m.values.keys ++ twoTenants.flatMap fun call => call.full.stored).dedup.length ≤
      m.values.capacity := by decide
  have hseen : seen ⟨fun _ => 0, elapse⟩ "a:" twoTenants m =
      [.done (.ok ()), .got (.ok [1]), .got (.error (.notFound "a:x"))] := by
    decide +kernel
  have halone := seen_filter_tenant ⟨fun _ => 0, elapse⟩ hothers hm hroom
  exact ⟨hothers, hm, hroom, hseen, halone.symm.trans hseen⟩

end Memory
end HttpCache
