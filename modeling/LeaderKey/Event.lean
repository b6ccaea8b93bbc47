import LeaderKey.ConfigError
import LeaderKey.Conflict

/-!
# Events

What a run records in its log. An event is a cause; its level, its wording and its fields are
derived from it.
-/

namespace LeaderKey

/-- How important an event is. -/
inductive Level where
  | debug
  | info
  | warn
  | error
  deriving DecidableEq, Repr

/-- The name of a level. -/
def Level.name : Level → String
  | .debug => "DEBUG"
  | .info => "INFO"
  | .warn => "WARN"
  | .error => "ERROR"

/-- Something that a run records. -/
inductive Event where
  /-- An entry of a config has neither an action nor bindings. -/
  | dropped (path : String)
  /-- An rc file was made from the template. -/
  | created (path : String)
  /-- An rc file could not be made. -/
  | notCreated (path : String) (e : ConfigError)
  /-- A reload ended before there was a text to compile. -/
  | reloadAborted (path : String) (e : ConfigError)
  /-- A reload ended because the text does not compile. -/
  | malformed (path : String) (e : CompileError)
  /-- Siblings of a loaded config share a mnemonic. -/
  | conflict (c : Conflict)
  /-- A config was loaded. -/
  | reloaded (path : String) (bindings depth : Nat)
  /-- The host could not open an rc file. -/
  | notOpened (path message : String)
  deriving DecidableEq

namespace Event

/-- How important an event is. -/
def level : Event → Level
  | .dropped _ => .debug
  | .created _ | .reloaded .. => .info
  | .notCreated .. | .malformed .. | .conflict _ | .notOpened .. => .warn
  | .reloadAborted .. => .error

/-- The wording of an event. -/
def message : Event → String
  | .dropped _ => "Dropping binding without actionId or bindings"
  | .created _ => "Created rc file from template"
  | .notCreated .. => "Could not create rc file"
  | .reloadAborted .. => "Reload aborted"
  | .malformed .. => "Config is malformed, keeping previous config"
  | .conflict _ => "Sibling bindings share a mnemonic; only the first is reachable"
  | .reloaded .. => "Config reloaded"
  | .notOpened .. => "Host could not open rc file"

/-- The named details of an event. -/
def fields : Event → List (String × String)
  | .dropped path | .created path => [("path", path)]
  | .notCreated path e | .reloadAborted path e => [("path", path), ("error", e.message)]
  | .malformed path e => [("path", path), ("error", e.message)]
  | .conflict c => [("conflict", c.toText)]
  | .reloaded path bindings depth =>
    [("path", path), ("bindings", toString bindings), ("depth", toString depth)]
  | .notOpened path message => [("path", path), ("error", message)]

end Event

end LeaderKey
