import LeaderKey.CommandLine.Arguments
import LeaderKey.Json
import LeaderKey.Reload

/-!
# Running a command

What each command prints and with which code it ends, as a function of the files it finds. A command
that cannot do its work says so with `Error:` and ends with code 1; wrong arguments end with code 2.
-/

namespace LeaderKey.CommandLine

/-- What a command finds. -/
structure Environment where
  /-- The files. -/
  files : FileTree
  /-- The path of the home directory, if there is one. -/
  home : Option String
  /-- What the host says if it cannot open a file. -/
  refusal : Option String := none

/-- What a run of the program leaves behind. -/
structure Report where
  /-- The exit code. -/
  code : Nat
  /-- What it printed. -/
  out : String
  /-- What it printed as errors. -/
  err : String
  /-- The files afterwards. -/
  files : FileTree
  /-- The rc file that it goes on watching, with what is loaded of it. -/
  watched : Option (String × Store) := none

/-- The version as it is printed. -/
def versionLine : String := "ataman 0.1.0\n"

/-- A summary of the arguments. -/
def usage : String := "\n".intercalate [
  "Usage: ataman [-v] <command>",
  "",
  "Commands:",
  "  check              Compile the rc file and check for duplicate mnemonics",
  "  tree [--json]      Print the compiled binding tree",
  "  resolve <keys>     Show the binding reached by a mnemonic sequence, e.g. qf",
  "  open               Open the rc file, creating it from the template if missing",
  "  watch              Reload the rc file every time it changes",
  "  template           Print the default rc file template",
  "  help               Print this message",
  "",
  "Options:",
  "  -c, --config <path>   Path to the rc file (default: ~/.atamanrc.config)",
  "  -v, --verbose         Log debug output",
  "  -h, --help            Print help",
  "  -V, --version         Print version",
  ""]

/-- A path with the home directory in the place of a tilde that stands alone or before a slash. -/
def expandTilde (home : Option String) (path : String) : String :=
  match home, path.toList with
  | some home, ['~'] => home
  | some home, '~' :: '/' :: rest => home ++ String.ofList ('/' :: rest)
  | _, _ => path

/-- The path of the rc file: the given one, or the one in the home directory. -/
def rcPath (home : Option String) : Option String → Except ConfigError String
  | some path => .ok (expandTilde home path)
  | none => RcFile.inHome home

/-- The path of the rc file that a command is about. -/
def Command.rcPath? (home : Option String) : Command → Option String
  | .onRcFile _ config => (rcPath home config).toOption
  | .template => none

/-- A text with every line but the first set in by four blanks. -/
def setIn (text : String) : String :=
  String.ofList (text.toList.flatMap fun c => if c = '\n' then "\n    ".toList else [c])

/-- How a failed command says why: the error, and what it comes from. -/
def errorText (message : String) (cause : Option String) : String :=
  match cause with
  | none => "Error: " ++ message ++ "\n"
  | some cause => "Error: " ++ message ++ "\n\nCaused by:\n    " ++ setIn cause ++ "\n"

/-- The report of a config error, after some output. -/
def Report.ofError (out : String) (e : ConfigError) (files : FileTree) : Report :=
  { code := 1, out, err := errorText e.message e.cause?, files }

/-- The line of a binding in a printed tree, at a depth. -/
def bindingLine (depth : Nat) (label : Label) : String :=
  String.ofList (List.replicate (2 * depth) ' ') ++ String.singleton label.key ++ " [" ++
    label.chord.toText ++ "] " ++ label.description

mutual

/-- A binding and everything below it, one line each. -/
def bindingLines (depth : Nat) : Binding → String
  | .action label actionId => bindingLine depth label ++ " → " ++ actionId ++ "\n"
  | .group label children => bindingLine depth label ++ "\n" ++ levelLines (depth + 1) children

/-- Some siblings and everything below them, one line each. -/
def levelLines (depth : Nat) : List Binding → String
  | [] => ""
  | b :: rest => bindingLines depth b ++ levelLines depth rest

end

/-- The numbered lines of texts. -/
def numbered (texts : List String) : String :=
  "".intercalate ((texts.zipIdx 1).map fun (text, i) => s!"  {i}. {text}\n")

/-- What `check` prints about a config. -/
def checkText (config : Config) : String :=
  let index := ConflictIndex.ofTree config.bindings
  let found := s!"✓ Found {index.total} bindings, {config.depth} levels deep\n\n"
  match index.conflicts with
  | [] => found ++ "✓ No duplicate mnemonics!\n"
  | conflicts =>
    let ending := if conflicts.length = 1 then "" else "s"
    let blocks := (conflicts.zipIdx 1).map fun (c, i) =>
      let place := c.slot.parent.push c.slot.key
      s!"Conflict {i} {place}\n" ++ numbered c.descriptions ++ "\n"
    found ++ s!"✗ Found {conflicts.length} duplicate mnemonic{ending}:\n\n" ++
      "".intercalate blocks ++ "⚠ Only the first binding of each key is reachable!\n"

/-- Loads the rc file of a command and goes on with the config; `out` is what it has printed. -/
def withLoaded (env : Environment) (path out : String) (f : FileTree → Config → Report) : Report :=
  let o := Reload.run env.files {} path KeyChord.ofChar
  match o.result with
  | .error e => .ofError out e o.files
  | .ok snapshot => f o.files snapshot.config

/-- What `check` does. -/
def checkReport (env : Environment) (path : String) : Report :=
  let out := "→ Compiling config: " ++ path ++ "\n"
  withLoaded env path out fun files config =>
    let code := if (ConflictIndex.ofTree config.bindings).conflicts.isEmpty then 0 else 1
    { code, out := out ++ checkText config, err := "", files }

/-- What `tree` does. -/
def treeReport (env : Environment) (path : String) (json : Bool) : Report :=
  withLoaded env path "" fun files config =>
    let out := if json then config.toJson.toLines ++ "\n"
      else config.title ++ "\n" ++ levelLines 1 config.bindings
    { code := 0, out, err := "", files }

/-- What `resolve` does. -/
def resolveReport (env : Environment) (path keys : String) : Report :=
  withLoaded env path "" fun files config =>
    match config.resolve keys.toList with
    | some b => { code := 0, out := bindingLines 0 b, err := "", files }
    | none =>
      { code := 1, out := "", err := errorText ("No binding for '" ++ keys ++ "'") none, files }

/-- What `open` does. -/
def openReport (env : Environment) (path : String) : Report :=
  let o := openRcFile env.files path env.refusal
  { code := 0
    out := ""
    err := "".intercalate (o.notifications.map Notification.toLine)
    files := o.files }

/-- What `watch` prints about the config that is loaded. -/
def loadedLine (store : Store) (path : String) : String :=
  let config := store.current.config
  s!"✓ {config.title}: {config.bindings.length} root bindings ({path})\n"

/-- How `watch` starts: it loads the rc file once and says what is loaded. -/
def watchReport (env : Environment) (path : String) : Report :=
  let found := RcFile.findOrCreate env.files path
  match found.result with
  | .error e => .ofError "" e found.files
  | .ok () =>
    let o := Reload.run found.files {} path KeyChord.ofChar
    { code := 0
      out := loadedLine o.store path
      err := "".intercalate (o.notifications.map Notification.toLine)
      files := o.files
      watched := some (path, o.store) }

/-- How `watch` goes on after the rc file has changed. -/
def watchAgain (files : FileTree) (path : String) (store : Store) : Report :=
  let o := Reload.run files store path KeyChord.ofChar
  { code := 0
    out := match o.result with
      | .ok _ => loadedLine o.store path
      | .error _ => "⚠ Keeping previous config\n"
    err := "".intercalate (o.notifications.map Notification.toLine)
    files := o.files
    watched := some (path, o.store) }

/-- Does something with the rc file at a path. -/
def Task.run (env : Environment) (path : String) : Task → Report
  | .check => checkReport env path
  | .tree json => treeReport env path json
  | .resolve keys => resolveReport env path keys
  | .openFile => openReport env path
  | .watch => watchReport env path

/-- Runs a command. -/
def Command.run (env : Environment) : Command → Report
  | .onRcFile task config =>
    match rcPath env.home config with
    | .ok path => task.run env path
    | .error e => .ofError "" e env.files
  | .template => { code := 0, out := RcFile.template, err := "", files := env.files }

/-- Runs the program with its arguments. -/
def run (env : Environment) (args : List String) : Report :=
  match Command.ofArguments args with
  | .ok command => command.run env
  | .error .version => { code := 0, out := versionLine, err := "", files := env.files }
  | .error .help => { code := 0, out := usage, err := "", files := env.files }
  | .error .refused => { code := 2, out := "", err := usage, files := env.files }

end LeaderKey.CommandLine
