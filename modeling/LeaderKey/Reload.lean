import LeaderKey.RcFile

/-!
# Reloading

The store holds the snapshot of the last config that was loaded. A reload finds or makes the rc
file, reads it and compiles it; only then does it publish a new snapshot. If any of this fails, the
store keeps the snapshot it has.
-/

namespace LeaderKey

/-- A loaded config. -/
structure Snapshot where
  /-- The number of the snapshot: how many were published before it. -/
  edition : Nat := 0
  /-- The config. -/
  config : Config := {}
  /-- The rc file that it was compiled from. -/
  source : Option String := none
  /-- Whether it was loaded, and so has a load time. -/
  dated : Bool := false

/-- Holds the current snapshot; at first it is the default config. -/
structure Store where
  /-- The current snapshot. -/
  current : Snapshot := {}

namespace Store

/-- Whether a config has been loaded. -/
def isLoaded (s : Store) : Bool := s.current.dated

/-- The store with a config that was loaded from a path. -/
def publish (s : Store) (config : Config) (path : String) : Store :=
  ⟨⟨s.current.edition + 1, config, some path, true⟩⟩

end Store

namespace Reload

/-- What a reload gives. -/
structure Outcome where
  /-- The files afterwards. -/
  files : FileTree
  /-- The store afterwards. -/
  store : Store
  /-- What it recorded. -/
  events : List Event
  /-- The new snapshot, or why there is none. -/
  result : Except ConfigError Snapshot

/-- Loads a text that was read from an rc file. -/
def load (files : FileTree) (store : Store) (path text : String) (chords : ChordSource) : Outcome :=
  let compilation := compileText text chords
  let dropped := compilation.dropped.map Event.dropped
  match compilation.outcome with
  | .error e => ⟨files, store, dropped ++ [.malformed path e], .error (.malformed e)⟩
  | .ok config =>
    let conflicts := (ConflictIndex.ofTree config.bindings).conflicts.map Event.conflict
    let store := store.publish config path
    ⟨files, store, dropped ++ conflicts ++ [.reloaded path config.bindings.length config.depth],
      .ok store.current⟩

/-- Reloads the rc file at a path. -/
def run (files : FileTree) (store : Store) (path : String) (chords : ChordSource) : Outcome :=
  let source := RcFile.read files path
  match source.result with
  | .error e => ⟨source.files, store, source.events ++ [.reloadAborted path e], .error e⟩
  | .ok text =>
    let loaded := load source.files store path text chords
    { loaded with events := source.events ++ loaded.events }

/-- What the user is told about a reload: nothing if it succeeded. -/
def Outcome.notifications (o : Outcome) : List Notification :=
  match o.result with
  | .ok _ => []
  | .error e => [e.notification]

end Reload

/-- What opening the rc file gives. -/
structure OpenOutcome where
  /-- The files afterwards. -/
  files : FileTree
  /-- What it recorded. -/
  events : List Event
  /-- The paths that the host was asked to open. -/
  asked : List String
  /-- The paths among them that the host did open. -/
  opened : List String
  /-- What the user is told. -/
  notifications : List Notification

/-- Makes sure that there is an rc file and asks the host to open it; `refusal` is what the host
says if it cannot. -/
def openRcFile (files : FileTree) (path : String) (refusal : Option String) : OpenOutcome :=
  let found := RcFile.findOrCreate files path
  match found.result with
  | .error e => ⟨found.files, found.events, [], [], [e.notification]⟩
  | .ok () =>
    match refusal with
    | none => ⟨found.files, found.events, [path], [path], []⟩
    | some message =>
      ⟨found.files, found.events ++ [.notOpened path message], [path], [],
        [(ConfigError.openFailed path message).notification]⟩

end LeaderKey
