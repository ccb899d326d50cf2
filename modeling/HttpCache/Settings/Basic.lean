import HttpCache.Policy
import HttpCache.Text.Ascii
import HttpCache.Text.Blank

/-!
# HttpCache.Settings.Basic

The settings of a cache as they are written down, and the policy that they stand for.

* `Settings` — every field may be left out.
* `Settings.toPolicy` — checks the fields and fills in the defaults.
* `Settings.memoryCapacity` — the number of values that the backend in memory may hold.

Of several faults, the first one in the order of the checks is reported.
-/

namespace HttpCache

structure Settings where
  allowedMethods : Option (List String)
  allowedStatuses : Option (List Nat)
  keyPrefix : Option String
  ttlSecs : Option Nat
  useStale : Option Bool
  staleStatuses : Option (List Nat)
  staleTtlSecs : Option Nat
  backendTimeoutMs : Option Nat
  memoryCapacity? : Option Nat
  deriving DecidableEq, Repr

inductive SettingsKey where
  | allowedMethods
  | allowedStatuses
  | ttlSecs
  | staleStatuses
  | staleTtlSecs
  | backendTimeoutMs
  | memoryCapacity
  deriving DecidableEq, Repr

namespace SettingsKey

def text : SettingsKey → String
  | allowedMethods => "cache.allowed_methods"
  | allowedStatuses => "cache.allowed_statuses"
  | ttlSecs => "cache.ttl_secs"
  | staleStatuses => "cache.stale_statuses"
  | staleTtlSecs => "cache.stale_ttl_secs"
  | backendTimeoutMs => "cache.backend_timeout_ms"
  | memoryCapacity => "cache.memory_capacity"

end SettingsKey

/-- The longest time to live that can be set: ten years. -/
def Settings.maxTtlSecs : Nat := 10 * 365 * 24 * 60 * 60

inductive SettingsFault where
  | emptyMethod
  | unsupportedStatus (code : Nat)
  | zero
  | tooLong
  /-- The backend would drop a response before it is stale. -/
  | staleBeforeTtl (staleTtl ttl : Nat)
  deriving DecidableEq, Repr

namespace SettingsFault

def text : SettingsFault → String
  | emptyMethod => "empty method name"
  | unsupportedStatus code => "unsupported status code " ++ Decimal.text code
  | zero => "must be greater than zero"
  | tooLong => "must not exceed " ++ Decimal.text Settings.maxTtlSecs ++ " seconds"
  | staleBeforeTtl staleTtl ttl =>
    "stale TTL (" ++ Decimal.text staleTtl ++ "s) must not be shorter than TTL (" ++
      Decimal.text ttl ++ "s)"

end SettingsFault

structure SettingsError where
  key : SettingsKey
  fault : SettingsFault
  deriving DecidableEq, Repr

namespace SettingsError

def message (e : SettingsError) : String :=
  "invalid configuration for `" ++ e.key.text ++ "`: " ++ e.fault.text

end SettingsError

namespace Settings

def empty : Settings := ⟨none, none, none, none, none, none, none, none, none⟩

def defaultMemoryCapacity : Nat := 1024

/-- The method of a name, without the blanks around it and in upper case. -/
def method (name : String) : Except SettingsError Method :=
  let trimmed := Text.trim name
  if trimmed.isEmpty then .error ⟨.allowedMethods, .emptyMethod⟩
  else .ok (.ofText (String.ofList (trimmed.toList.map Char.toUpper)))

def statuses (key : SettingsKey) : List Nat → Except SettingsError (List Status)
  | [] => .ok []
  | code :: rest =>
    match Status.ofCode? code with
    | none => .error ⟨key, .unsupportedStatus code⟩
    | some status =>
      match statuses key rest with
      | .error e => .error e
      | .ok others => .ok (status :: others)

def methods : List String → Except SettingsError (List Method)
  | [] => .ok []
  | name :: rest =>
    match method name with
    | .error e => .error e
    | .ok first =>
      match methods rest with
      | .error e => .error e
      | .ok others => .ok (first :: others)

def positive (key : SettingsKey) (n : Nat) : Except SettingsError Nat :=
  if n = 0 then .error ⟨key, .zero⟩ else .ok n

def ttl (key : SettingsKey) (n : Nat) : Except SettingsError Span :=
  match positive key n with
  | .error e => .error e
  | .ok n => if maxTtlSecs < n then .error ⟨key, .tooLong⟩ else .ok (.ofSeconds n)

def timeout (n : Nat) : Except SettingsError (Option Span) :=
  match positive .backendTimeoutMs n with
  | .error e => .error e
  | .ok n => .ok (some (.ofMillis n))

/-- A field that is set, checked; or the default. -/
def field {α β : Type} (given : Option α) (fallback : β) (check : α → Except SettingsError β) :
    Except SettingsError β :=
  match given with
  | none => .ok fallback
  | some value => check value

def toPolicy (s : Settings) : Except SettingsError Policy := do
  let base := Policy.default
  let allowedMethods ← field s.allowedMethods base.allowedMethods methods
  let allowedStatuses ←
    field s.allowedStatuses base.allowedStatuses (statuses .allowedStatuses)
  let staleStatuses ← field s.staleStatuses base.staleStatuses (statuses .staleStatuses)
  let freshTtl ← field s.ttlSecs base.ttl (ttl .ttlSecs)
  let staleTtl ← field s.staleTtlSecs base.staleTtl (ttl .staleTtlSecs)
  let backendTimeout ← field s.backendTimeoutMs base.backendTimeout timeout
  if staleTtl < freshTtl then
    .error ⟨.staleTtlSecs, .staleBeforeTtl staleTtl.seconds freshTtl.seconds⟩
  else
    .ok
      { allowedMethods, allowedStatuses, staleStatuses, staleTtl, backendTimeout
        keyPrefix := s.keyPrefix.getD base.keyPrefix
        ttl := freshTtl
        useStale := s.useStale.getD base.useStale }

def memoryCapacity (s : Settings) : Except SettingsError Nat :=
  positive .memoryCapacity (s.memoryCapacity?.getD defaultMemoryCapacity)

end Settings
end HttpCache
