import LeaderKey.Event
import LeaderKey.FileTree

/-!
# The rc file

The rc file is the user's. It is made from a template when it is first needed, and never changed
after that: `findOrCreate` writes only if there is nothing at the path. It then writes the entry
that the path names in its directory, whatever slashes and dots follow the name.
-/

namespace LeaderKey.RcFile

/-- The name of the rc file in the home directory. -/
def fileName : String := ".atamanrc.config"

/-- What a new rc file holds. -/
def template : String := "\n".intercalate [
  "# This file is written in HOCON (Human-Optimized Config Object Notation) format.",
  "# For more information about HOCON see https://github.com/lightbend/config/blob/master/HOCON.md",
  "",
  "appearance \x7b",
  "    title: Ataman",
  "\x7d",
  "bindings \x7b",
  "    q \x7b",
  "        description: Session...",
  "        bindings \x7b",
  "             f \x7b actionId: OpenAtamanConfigAction, description: Open ~/.atamanrc.config \x7d",
  "        \x7d",
  "    \x7d,",
  "\x7d",
  ""]

/-- The path of the rc file in a home directory, if there is one. -/
def inHome (home : Option String) : Except ConfigError String :=
  match home with
  | some directory => .ok (Path.join directory fileName)
  | none => .error (.sourceUnavailable (Path.join "~" fileName))

/-- What an operation on the rc file gives. -/
structure Outcome (α : Type) where
  /-- The files afterwards. -/
  files : FileTree
  /-- What it recorded. -/
  events : List Event
  /-- Its result. -/
  result : Except ConfigError α

/-- Makes sure that there is an rc file, from the template if need be. -/
def findOrCreate (files : FileTree) (path : String) : Outcome Unit :=
  if files.has path then ⟨files, [], .ok ()⟩
  else
    match files.install path template.toUTF8 with
    | .ok files => ⟨files, [.created path], .ok ()⟩
    | .error e =>
      let failure : ConfigError := .writeFailed e.message
      ⟨files, [.notCreated path failure], .error (.sourceUnavailable path)⟩

/-- Reads the rc file, which is made if need be. -/
def read (files : FileTree) (path : String) : Outcome String :=
  let found := findOrCreate files path
  { files := found.files
    events := found.events
    result := do
      found.result
      (found.files.read path).mapError fun e => .io e.message }

end LeaderKey.RcFile
