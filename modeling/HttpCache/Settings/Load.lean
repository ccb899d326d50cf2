import HttpCache.Config.Coercion
import HttpCache.Config.Environment
import HttpCache.Config.Path
import HttpCache.Settings.Basic
import HttpCache.Text.Mark
import HttpCache.Toml.Document

/-!
# HttpCache.Settings.Load

Settings from a configuration file and from environment variables.

* `Settings.layers` — the configuration: the file, with the variables laid over it.
* `Settings.ofTree?` — the settings in a configuration.
* `Settings.ofConfiguration` — decodes and checks; settings that would not do are refused here.
* `Settings.load` — the settings of a file and of variables.
-/

namespace HttpCache

open Config (Tree)

inductive LoadError where
  /-- The file is no TOML, or a value has the wrong type. -/
  | unreadable
  | invalid (cause : SettingsError)
  deriving DecidableEq, Repr

namespace Settings

/-- The configuration of a file and of variables; the variables come last, so they win. A mark of
the order of octets in front of the file is none of its text. -/
def layers (file : Option String) (vars : List (String × String)) : Option Tree := do
  let entries ← match file with
    | none => some []
    | some text => Toml.document (Text.withoutMark text)
  let bindings := entries ++ Config.Environment.bindings vars
  pure (bindings.foldl Config.Path.assign (.table []))

def readText : Tree → Option (Option String) := Tree.toOption? Tree.toText?

def readBool : Tree → Option (Option Bool) := Tree.toOption? Tree.toBool?

def readNatural : Tree → Option (Option Nat) :=
  Tree.toOption? (Tree.toNatural? Tree.maxNatural)

def readTexts : Tree → Option (Option (List String)) :=
  Tree.toOption? (Tree.toList? Tree.toText?)

def maxCode : Nat := 65535

def readCodes : Tree → Option (Option (List Nat)) :=
  Tree.toOption? (Tree.toList? (Tree.toNatural? maxCode))

/-- The settings whose fields are found by `lookup`, from the name and the place of each field. -/
def ofFields? (lookup : String → Nat → Tree) : Option Settings := do
  let allowedMethods ← readTexts (lookup "allowed_methods" 0)
  let allowedStatuses ← readCodes (lookup "allowed_statuses" 1)
  let keyPrefix ← readText (lookup "key_prefix" 2)
  let ttlSecs ← readNatural (lookup "ttl_secs" 3)
  let useStale ← readBool (lookup "use_stale" 4)
  let staleStatuses ← readCodes (lookup "stale_statuses" 5)
  let staleTtlSecs ← readNatural (lookup "stale_ttl_secs" 6)
  let backendTimeoutMs ← readNatural (lookup "backend_timeout_ms" 7)
  let memoryCapacity? ← readNatural (lookup "memory_capacity" 8)
  pure
    { allowedMethods, allowedStatuses, keyPrefix, ttlSecs, useStale, staleStatuses, staleTtlSecs
      backendTimeoutMs, memoryCapacity? }

/-- The settings that a value holds: a table by name, or a list by place. -/
def ofValue? : Tree → Option Settings
  | .table entries => ofFields? fun name _ => ((Tree.table entries).get? name).getD .absent
  | .list items => ofFields? fun _ place => items.getD place .absent
  | _ => none

def ofTree? (t : Tree) : Option Settings :=
  match t.get? "cache" with
  | none => some empty
  | some value => ofValue? value

/-- The settings in a configuration, if one could be built from its sources. -/
def ofConfiguration (built : Option Tree) : Except LoadError Settings :=
  match built.bind ofTree? with
  | none => .error .unreadable
  | some s =>
    match s.toPolicy with
    | .error e => .error (.invalid e)
    | .ok _ =>
      match s.memoryCapacity with
      | .error e => .error (.invalid e)
      | .ok _ => .ok s

def load (file : Option String) (vars : List (String × String)) : Except LoadError Settings :=
  ofConfiguration (layers file vars)

end Settings
end HttpCache
