import Mathlib.Data.List.Forall2
import Mathlib.Data.List.TakeWhile
import Mathlib.Data.Set.List
import HttpCache.Proofs.Except
import HttpCache.Settings.Basic

/-!
# HttpCache.Proofs.Settings

Which settings stand for a policy, and for which one.

* `Settings.Valid` — what settings have to be, field by field.
* `Settings.Fills` — the policy has every field that is given, and the default of every other.
* `toPolicy_eq_ok_iff`, `exists_toPolicy_iff` — the checks let just the valid settings through, and
  fill in just that policy.
* `Policy.Timed` — both times to live are whole seconds, not zero, and in order. So they are in
  every policy that settings stand for (`timed_of_toPolicy`), also when it is normalized
  (`Policy.Timed.normalized`).
-/

namespace HttpCache

/-- A response is a hit for `fresh` seconds and is kept for `kept` seconds. -/
structure Policy.Timed (p : Policy) (fresh kept : Nat) : Prop where
  ttl : p.ttl = .ofSeconds fresh
  staleTtl : p.staleTtl = .ofSeconds kept
  positive : 0 < fresh
  ordered : fresh ≤ kept

namespace Policy

variable {p : Policy} {fresh kept n : Nat}

theorem orSpan_ofSeconds (h : 0 < n) (fallback : Span) :
    orSpan (.ofSeconds n) fallback = .ofSeconds n := by
  refine if_neg fun hzero => ?_
  have hnanos : n * 1000000000 = 0 := congrArg Span.nanos hzero
  omega

theorem Timed.normalized (h : p.Timed fresh kept) : p.normalized.Timed fresh kept where
  ttl := by rw [Policy.normalized, h.ttl, orSpan_ofSeconds h.positive]
  staleTtl := by
    rw [Policy.normalized, h.staleTtl, orSpan_ofSeconds (Nat.lt_of_lt_of_le h.positive h.ordered)]
  positive := h.positive
  ordered := h.ordered

end Policy

theorem Status.code_injective : Function.Injective Status.code := by
  intro a b h
  have ha := ofCode?_code a
  rw [h, ofCode?_code] at ha
  exact (Option.some.inj ha).symm

theorem Span.ofSeconds_lt_iff {m n : Nat} : Span.ofSeconds m < .ofSeconds n ↔ m < n := by
  have hnanos : Span.ofSeconds m < .ofSeconds n ↔ m * 1000000000 < n * 1000000000 := Iff.rfl
  rw [hnanos]
  omega

theorem Text.trim_eq_empty_iff {s : String} : trim s = "" ↔ ∀ c ∈ s.toList, isBlank c = true := by
  rw [trim, String.ofList_eq_empty_iff, List.reverse_eq_nil_iff, List.dropWhile_eq_nil_iff]
  simp only [List.mem_reverse]
  constructor
  · intro h
    -- what is left behind the blanks in front would begin with a character that is none
    have hnil : s.toList.dropWhile isBlank = [] := by
      cases hd : s.toList.dropWhile isBlank with
      | nil => rfl
      | cons c cs =>
        have hhead := List.head?_dropWhile_not isBlank s.toList
        rw [hd] at h hhead
        have hblank := (h c List.mem_cons_self).symm.trans hhead
        cases hblank
    exact List.dropWhile_eq_nil_iff.mp hnil
  · intro h c hc
    exact h c ((List.dropWhile_suffix _).subset hc)

namespace Settings

/-! ## The checks of one field -/

/-- The method that a name stands for. -/
def methodNamed (name : String) : Method :=
  .ofText (String.ofList ((Text.trim name).toList.map Char.toUpper))

/-- Some character of the name is no white space. -/
def IsNamed (name : String) : Prop := ∃ c ∈ name.toList, Text.isBlank c = false

/-- Some status has this code. -/
def IsKnown (code : Nat) : Prop := ∃ status : Status, status.code = code

/-- The time to live is at least one second and at most ten years. -/
def InRange (seconds : Nat) : Prop := 1 ≤ seconds ∧ seconds ≤ maxTtlSecs

section Checks

variable {key : SettingsKey} {n m : Nat} {span : Span}

theorem method_eq_ok_iff {name : String} {result : Method} :
    method name = .ok result ↔ IsNamed name ∧ methodNamed name = result := by
  have hnamed : IsNamed name ↔ (Text.trim name).isEmpty = false := by
    rw [← Bool.not_eq_true, String.isEmpty_iff, Text.trim_eq_empty_iff, IsNamed]
    simp
  rw [hnamed, method]
  cases (Text.trim name).isEmpty with
  | true => simp
  | false => simp [methodNamed]

theorem methods_eq_mapM (names : List String) : methods names = names.mapM method := by
  induction names with
  | nil => rfl
  | cons name names ih =>
    rw [methods, List.mapM_cons, ← ih]
    cases method name with
    | error e => rfl
    | ok first => cases methods names <;> rfl

theorem methods_eq_ok_iff {names : List String} {results : List Method} :
    methods names = .ok results ↔
      (∀ name ∈ names, IsNamed name) ∧ results = names.map methodNamed := by
  rw [methods_eq_mapM, mapM_eq_ok_iff]
  simp only [method_eq_ok_iff]
  rw [List.forall₂_and_left, ← List.forall₂_map_left_iff, List.forall₂_eq_eq_eq]
  exact and_congr_right fun _ => eq_comm

/-- The status of a code. -/
def status (key : SettingsKey) (code : Nat) : Except SettingsError Status :=
  match Status.ofCode? code with
  | none => .error ⟨key, .unsupportedStatus code⟩
  | some status => .ok status

theorem status_eq_ok_iff {code : Nat} {result : Status} :
    status key code = .ok result ↔ code = result.code := by
  constructor
  · intro h
    unfold status at h
    split at h
    · cases h
    · rename_i hcode
      cases h
      exact (Status.code_of_ofCode? hcode).symm
  · rintro rfl
    rw [status, Status.ofCode?_code]

theorem statuses_eq_mapM (codes : List Nat) : statuses key codes = codes.mapM (status key) := by
  induction codes with
  | nil => rfl
  | cons code codes ih =>
    rw [statuses, List.mapM_cons, ← ih, status]
    cases Status.ofCode? code with
    | none => rfl
    | some first => cases statuses key codes <;> rfl

theorem statuses_eq_ok_iff {codes : List Nat} {results : List Status} :
    statuses key codes = .ok results ↔ results.map Status.code = codes := by
  rw [statuses_eq_mapM, mapM_eq_ok_iff]
  simp only [status_eq_ok_iff]
  rw [← List.forall₂_map_right_iff (R := Eq), List.forall₂_eq_eq_eq]
  exact eq_comm

theorem positive_eq_ok_iff : positive key n = .ok m ↔ n ≠ 0 ∧ n = m := by
  unfold positive
  split
  · simp [*]
  · simp [*]

theorem ttl_eq_ok_iff : ttl key n = .ok span ↔ InRange n ∧ span = .ofSeconds n := by
  unfold ttl InRange
  split
  · rename_i e h
    have hzero : n = 0 := by
      by_contra hn
      rw [positive_eq_ok_iff.mpr ⟨hn, rfl⟩] at h
      cases h
    simp [hzero]
  · rename_i m h
    obtain ⟨hn, rfl⟩ := positive_eq_ok_iff.mp h
    split
    · simp
      omega
    · simp [eq_comm]
      omega

theorem timeout_eq_ok_iff {limit : Option Span} :
    timeout n = .ok limit ↔ n ≠ 0 ∧ limit = some (.ofMillis n) := by
  unfold timeout positive
  by_cases hn : n = 0
  · simp [hn]
  · simp [hn, eq_comm]

end Checks

/-! ## All fields together -/

/-- The time to live in seconds: the given one, or the default. -/
def freshSecs (s : Settings) : Nat := s.ttlSecs.getD Policy.default.ttl.seconds

/-- The time to live of a stale response in seconds: the given one, or the default. -/
def keptSecs (s : Settings) : Nat := s.staleTtlSecs.getD Policy.default.staleTtl.seconds

/-- What settings have to be. -/
structure Valid (s : Settings) : Prop where
  allowedMethods : ∀ names ∈ s.allowedMethods, ∀ name ∈ names, IsNamed name
  allowedStatuses : ∀ codes ∈ s.allowedStatuses, ∀ code ∈ codes, IsKnown code
  staleStatuses : ∀ codes ∈ s.staleStatuses, ∀ code ∈ codes, IsKnown code
  ttl : ∀ seconds ∈ s.ttlSecs, InRange seconds
  staleTtl : ∀ seconds ∈ s.staleTtlSecs, InRange seconds
  backendTimeout : ∀ millis ∈ s.backendTimeoutMs, millis ≠ 0
  ordered : s.freshSecs ≤ s.keptSecs

/-- The policy has each field that is given, and the default of every other. -/
structure Fills (s : Settings) (p : Policy) : Prop where
  allowedMethods : p.allowedMethods =
    (s.allowedMethods.map (·.map methodNamed)).getD Policy.default.allowedMethods
  /-- The listed statuses, in order and as often as they are listed. -/
  allowedStatuses : p.allowedStatuses.map Status.code =
    s.allowedStatuses.getD (Policy.default.allowedStatuses.map Status.code)
  staleStatuses : p.staleStatuses.map Status.code =
    s.staleStatuses.getD (Policy.default.staleStatuses.map Status.code)
  keyPrefix : p.keyPrefix = s.keyPrefix.getD Policy.default.keyPrefix
  ttl : p.ttl = .ofSeconds s.freshSecs
  useStale : p.useStale = s.useStale.getD Policy.default.useStale
  staleTtl : p.staleTtl = .ofSeconds s.keptSecs
  backendTimeout : p.backendTimeout = s.backendTimeoutMs.map .ofMillis

section Field

variable {α β : Type} {given : Option α} {fallback value : β} {check : α → Except SettingsError β}

/-- A field that is checked has the default or what the check makes of the given value. -/
theorem field_eq_ok_iff {P : α → Prop} {f : α → β}
    (h : ∀ a b, check a = .ok b ↔ P a ∧ b = f a) :
    field given fallback check = .ok value ↔
      (∀ a ∈ given, P a) ∧ value = (given.map f).getD fallback := by
  cases given with
  | none => simp [field, eq_comm]
  | some a => simp [field, h]

end Field

theorem field_methods_eq_ok_iff {given : Option (List String)} {fallback results : List Method} :
    field given fallback methods = .ok results ↔
      (∀ names ∈ given, ∀ name ∈ names, IsNamed name) ∧
        results = (given.map (·.map methodNamed)).getD fallback :=
  field_eq_ok_iff fun _ _ => methods_eq_ok_iff

theorem field_timeout_eq_ok_iff {given : Option Nat} {limit : Option Span} :
    field given none timeout = .ok limit ↔
      (∀ millis ∈ given, millis ≠ 0) ∧ limit = given.map .ofMillis := by
  rw [field_eq_ok_iff fun _ _ => timeout_eq_ok_iff]
  cases given <;> rfl

theorem field_ttl_eq_ok_iff {key : SettingsKey} {given : Option Nat} {fallback : Nat}
    {span : Span} :
    field given (.ofSeconds fallback) (ttl key) = .ok span ↔
      (∀ seconds ∈ given, InRange seconds) ∧ span = .ofSeconds (given.getD fallback) := by
  rw [field_eq_ok_iff fun _ _ => ttl_eq_ok_iff]
  cases given <;> rfl

theorem field_statuses_eq_ok_iff {key : SettingsKey} {given : Option (List Nat)}
    {fallback results : List Status} :
    field given fallback (statuses key) = .ok results ↔
      results.map Status.code = given.getD (fallback.map Status.code) := by
  cases given with
  | none => simp [field, eq_comm, (List.map_injective_iff.mpr Status.code_injective).eq_iff]
  | some codes => simp [field, statuses_eq_ok_iff]

theorem isKnown_of_map {given : Option (List Nat)} {fallback : List Nat} {results : List Status}
    (h : results.map Status.code = given.getD fallback) :
    ∀ codes ∈ given, ∀ code ∈ codes, IsKnown code := by
  rintro codes hcodes code hcode
  rw [Option.mem_def.mp hcodes, Option.getD_some] at h
  rw [← h] at hcode
  obtain ⟨status, -, hstatus⟩ := List.mem_map.mp hcode
  exact ⟨status, hstatus⟩

theorem exists_map_code {given : Option (List Nat)} (fallback : List Status)
    (h : ∀ codes ∈ given, ∀ code ∈ codes, IsKnown code) :
    ∃ results : List Status, results.map Status.code = given.getD (fallback.map Status.code) := by
  cases given with
  | none => exact ⟨fallback, rfl⟩
  | some codes =>
    have hrange : codes ∈ Set.range (List.map Status.code) := by
      rw [Set.range_list_map]
      exact h codes rfl
    exact hrange

variable {s : Settings} {p : Policy}

/-- **The checks let through what is valid.** They give a policy if and only if the settings are
valid and the policy is filled from them. -/
theorem toPolicy_eq_ok_iff : s.toPolicy = .ok p ↔ s.Valid ∧ s.Fills p := by
  constructor
  · intro h
    obtain ⟨allowedMethods, hmethods, h⟩ := bind_eq_ok_iff.mp h
    obtain ⟨allowedStatuses, hallowed, h⟩ := bind_eq_ok_iff.mp h
    obtain ⟨staleStatuses, hstale, h⟩ := bind_eq_ok_iff.mp h
    obtain ⟨freshTtl, hfresh, h⟩ := bind_eq_ok_iff.mp h
    obtain ⟨staleTtl, hkept, h⟩ := bind_eq_ok_iff.mp h
    obtain ⟨backendTimeout, htimeout, h⟩ := bind_eq_ok_iff.mp h
    obtain ⟨hnamed, rfl⟩ := field_methods_eq_ok_iff.mp hmethods
    obtain ⟨hfreshRange, rfl⟩ := field_ttl_eq_ok_iff.mp hfresh
    obtain ⟨hkeptRange, rfl⟩ := field_ttl_eq_ok_iff.mp hkept
    obtain ⟨hpositive, rfl⟩ := field_timeout_eq_ok_iff.mp htimeout
    rw [field_statuses_eq_ok_iff] at hallowed hstale
    split at h
    · cases h
    · rename_i horder
      cases h
      rw [Span.ofSeconds_lt_iff, Nat.not_lt] at horder
      exact ⟨⟨hnamed, isKnown_of_map hallowed, isKnown_of_map hstale, hfreshRange, hkeptRange,
        hpositive, horder⟩, ⟨rfl, hallowed, hstale, rfl, rfl, rfl, rfl, rfl⟩⟩
  · rintro ⟨hvalid, hfills⟩
    obtain ⟨allowedMethods, allowedStatuses, keyPrefix, freshTtl, useStale, staleStatuses, staleTtl,
      backendTimeout⟩ := p
    obtain ⟨rfl, hallowed, hstale, rfl, rfl, rfl, rfl, rfl⟩ := hfills
    refine bind_eq_ok_iff.mpr ⟨_, field_methods_eq_ok_iff.mpr ⟨hvalid.allowedMethods, rfl⟩, ?_⟩
    refine bind_eq_ok_iff.mpr ⟨_, field_statuses_eq_ok_iff.mpr hallowed, ?_⟩
    refine bind_eq_ok_iff.mpr ⟨_, field_statuses_eq_ok_iff.mpr hstale, ?_⟩
    refine bind_eq_ok_iff.mpr ⟨_, field_ttl_eq_ok_iff.mpr ⟨hvalid.ttl, rfl⟩, ?_⟩
    refine bind_eq_ok_iff.mpr ⟨_, field_ttl_eq_ok_iff.mpr ⟨hvalid.staleTtl, rfl⟩, ?_⟩
    refine bind_eq_ok_iff.mpr ⟨_, field_timeout_eq_ok_iff.mpr ⟨hvalid.backendTimeout, rfl⟩, ?_⟩
    have horder := hvalid.ordered
    rw [← Nat.not_lt, ← Span.ofSeconds_lt_iff] at horder
    exact if_neg horder

theorem exists_toPolicy_iff : (∃ p, s.toPolicy = .ok p) ↔ s.Valid := by
  constructor
  · rintro ⟨p, h⟩
    exact (toPolicy_eq_ok_iff.mp h).1
  · intro h
    obtain ⟨allowedStatuses, hallowed⟩ :=
      exists_map_code Policy.default.allowedStatuses h.allowedStatuses
    obtain ⟨staleStatuses, hstale⟩ := exists_map_code Policy.default.staleStatuses h.staleStatuses
    exact ⟨⟨_, allowedStatuses, _, _, _, staleStatuses, _, _⟩,
      toPolicy_eq_ok_iff.mpr ⟨h, ⟨rfl, hallowed, hstale, rfl, rfl, rfl, rfl, rfl⟩⟩⟩

theorem Valid.timed (h : s.Valid) (hfills : s.Fills p) : p.Timed s.freshSecs s.keptSecs where
  ttl := hfills.ttl
  staleTtl := hfills.staleTtl
  positive := by
    rw [freshSecs]
    cases hs : s.ttlSecs with
    | none => decide
    | some seconds => exact (h.ttl seconds hs).1
  ordered := h.ordered

theorem timed_of_toPolicy (h : s.toPolicy = .ok p) : ∃ fresh kept, p.Timed fresh kept := by
  obtain ⟨hvalid, hfills⟩ := toPolicy_eq_ok_iff.mp h
  exact ⟨s.freshSecs, s.keptSecs, hvalid.timed hfills⟩

end Settings
end HttpCache
