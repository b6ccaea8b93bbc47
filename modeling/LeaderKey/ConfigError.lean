import LeaderKey.Compile
import LeaderKey.Notification

/-!
# Errors around the rc file

What can go wrong between an rc file and a loaded config, how it reads as an error, and what the
user is told about it.
-/

namespace LeaderKey

/-- Why an rc file could not be loaded, made, opened or watched. -/
inductive ConfigError where
  /-- There is no rc file at the path, and none could be made. -/
  | sourceUnavailable (path : String)
  /-- The rc file does not compile. -/
  | malformed (e : CompileError)
  /-- The template could not be written. -/
  | writeFailed (message : String)
  /-- The host could not open the rc file. -/
  | openFailed (path message : String)
  /-- The rc file could not be watched. -/
  | watch (message : String)
  /-- The system failed otherwise. -/
  | io (message : String)
  deriving DecidableEq, Repr

namespace ConfigError

/-- The error that an error comes from, as text. -/
def cause? : ConfigError → Option String
  | .malformed e => some e.message
  | .io message => some message
  | _ => none

/-- The wording of a config error. -/
def message : ConfigError → String
  | .sourceUnavailable path => "Could not find or create rc file: " ++ path
  | .malformed e => "Config is malformed: " ++ e.message
  | .writeFailed message => "Atomic write failed: " ++ message
  | .openFailed path message => "Failed to open " ++ path ++ ": " ++ message
  | .watch message => "Failed to watch rc file: " ++ message
  | .io message => "IO error: " ++ message

/-- What the user is told about an error. -/
def notice : ConfigError → String
  | .sourceUnavailable _ => "Could not find or create rc file. Aborting..."
  | .malformed e => "Config is malformed. Aborting...\n" ++ e.message
  | .io message => "Config is malformed. Aborting...\n" ++ message
  | other => other.message

/-- The notification about an error. -/
def notification (e : ConfigError) : Notification :=
  .ofError Notification.programTitle e.notice

end ConfigError

end LeaderKey
