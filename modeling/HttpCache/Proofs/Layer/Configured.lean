import HttpCache.Layer.Caching
import HttpCache.Proofs.Settings
import HttpCache.Settings.Load
import HttpCache.Store.Memory

/-!
# HttpCache.Proofs.Layer.Configured

What a cache layer is configured with, from the settings as they are written down.

* `ofConfiguration_eq_ok_iff` — settings are loaded if they decode and pass all checks.
* `Policy.RunsAs`, `Timed.runsAs_normalized` — a layer runs a policy that settings stand for
  unchanged, empty lists apart.
* `configured_exactly` — which settings there is a policy for, which policy, and how it is run.
-/

namespace HttpCache

/-- The policy `q` is `p`, but that it may have a list where `p` has an empty one. -/
structure Policy.RunsAs (p q : Policy) : Prop where
  keyPrefix : q.keyPrefix = p.keyPrefix
  ttl : q.ttl = p.ttl
  useStale : q.useStale = p.useStale
  staleTtl : q.staleTtl = p.staleTtl
  backendTimeout : q.backendTimeout = p.backendTimeout
  allowedMethods : p.allowedMethods ≠ [] → q.allowedMethods = p.allowedMethods
  allowedStatuses : p.allowedStatuses ≠ [] → q.allowedStatuses = p.allowedStatuses
  staleStatuses : p.staleStatuses ≠ [] → q.staleStatuses = p.staleStatuses

namespace Policy

variable {p : Policy} {fresh kept : Nat}

theorem orList_of_ne_nil {α : Type} {given : List α} (h : given ≠ []) (fallback : List α) :
    orList given fallback = given :=
  if_neg (by simpa using h)

theorem Timed.runsAs_normalized (h : p.Timed fresh kept) : p.RunsAs p.normalized where
  keyPrefix := rfl
  ttl := h.normalized.ttl.trans h.ttl.symm
  useStale := rfl
  staleTtl := h.normalized.staleTtl.trans h.staleTtl.symm
  backendTimeout := rfl
  allowedMethods hne := orList_of_ne_nil hne _
  allowedStatuses hne := orList_of_ne_nil hne _
  staleStatuses hne := orList_of_ne_nil hne _

theorem Timed.ttl_le (h : p.Timed fresh kept) : p.ttl ≤ p.staleTtl := by
  rw [h.ttl, h.staleTtl]
  exact Nat.mul_le_mul_right 1000000000 h.ordered

end Policy

namespace Settings

open Config (Tree)

variable {σ : Type}

theorem ofConfiguration_eq_ok_iff {built : Option Tree} {s : Settings} :
    ofConfiguration built = .ok s ↔
      built.bind ofTree? = some s ∧ (∃ p, s.toPolicy = .ok p) ∧
        ∃ capacity, s.memoryCapacity = .ok capacity := by
  constructor
  · intro h
    unfold ofConfiguration at h
    split at h
    · cases h
    · rename_i hs
      split at h
      · cases h
      · rename_i p hp
        split at h
        · cases h
        · rename_i capacity hcapacity
          cases h
          exact ⟨hs, ⟨p, hp⟩, capacity, hcapacity⟩
  · rintro ⟨hs, ⟨p, hp⟩, capacity, hcapacity⟩
    simp only [ofConfiguration, hs, hp, hcapacity]

/-- **The checks of settings are exact.** There is a policy for just the valid settings; it has
every field that is given and the default of every other; and a cache layer runs it as it is, empty
lists apart, so that a response is kept for at least as long as it is a hit. Settings are loaded
only if they pass these checks, and the one of the capacity. -/
theorem configured_exactly (s : Settings) (clock : Clock σ) (store : Store σ) :
    ((∃ p, s.toPolicy = .ok p) ↔ s.Valid) ∧
      (∀ p, s.toPolicy = .ok p →
        s.Fills p ∧ p.RunsAs (Caching.make clock store p).policy ∧
          (Caching.make clock store p).policy.ttl ≤
            (Caching.make clock store p).policy.staleTtl) ∧
      ∀ built, ofConfiguration built = .ok s ↔
        built.bind ofTree? = some s ∧ (∃ p, s.toPolicy = .ok p) ∧
          ∃ capacity, s.memoryCapacity = .ok capacity := by
  refine ⟨exists_toPolicy_iff, fun p h => ?_, fun built => ofConfiguration_eq_ok_iff⟩
  obtain ⟨hvalid, hfills⟩ := toPolicy_eq_ok_iff.mp h
  have htimed := hvalid.timed hfills
  exact ⟨hfills, htimed.runsAs_normalized, htimed.normalized.ttl_le⟩

/-- Settings whose lists are not in order and have a repetition, and name a method with blanks. -/
def reports : Settings :=
  { empty with
    allowedMethods := some [" get", "Report"]
    allowedStatuses := some [404, 200, 404]
    ttlSecs := some 60
    backendTimeoutMs := some 250 }

def reportsPolicy : Policy :=
  { Policy.default with
    allowedMethods := [.get, .custom "REPORT"]
    allowedStatuses := [.notFound, .ok, .notFound]
    ttl := .ofSeconds 60
    backendTimeout := some (.ofMillis 250) }

/-- The reports are run as they are set, and with the default for what is not. -/
theorem configured_reports :
    reports.toPolicy = .ok reportsPolicy ∧ reports.Fills reportsPolicy ∧
      reportsPolicy.RunsAs (Caching.make ⟨fun _ => 0, Memory.elapse⟩ .memory reportsPolicy).policy ∧
      ofConfiguration (some (.table [("cache", .table [("ttl_secs", .text "60")])])) =
        .ok { empty with ttlSecs := some 60 } := by
  have hpolicy : reports.toPolicy = .ok reportsPolicy := by decide +kernel
  obtain ⟨-, hruns, -⟩ := configured_exactly reports ⟨fun _ => 0, Memory.elapse⟩ .memory
  obtain ⟨-, -, hloads⟩ :=
    configured_exactly { empty with ttlSecs := some 60 } ⟨fun _ => 0, Memory.elapse⟩ .memory
  obtain ⟨hfills, hrunsAs, -⟩ := hruns reportsPolicy hpolicy
  exact ⟨hpolicy, hfills, hrunsAs,
    (hloads _).mpr ⟨by decide +kernel, ⟨_, rfl⟩, _, rfl⟩⟩

/-- A time to live that is longer than the default of the other one needs that other one, too. -/
example : { empty with ttlSecs := some 86401 }.toPolicy =
    .error ⟨.staleTtlSecs, .staleBeforeTtl 86400 86401⟩ := by rfl

end Settings
end HttpCache
