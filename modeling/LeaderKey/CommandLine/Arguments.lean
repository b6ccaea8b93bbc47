/-!
# Command line arguments

The arguments of the program are switches and operands. A switch is written `--name`, or `-n` with
short names in one argument after each other; a switch with a value takes it after `=`, behind its
short name or from the next argument, and is given at most once, as every switch. After `--` there
are only operands. The first operand is the command, and the rest is read by the command's own
switches.
-/

namespace LeaderKey.CommandLine

/-- What can be done with an rc file. -/
inductive Task where
  /-- Compile it and report mnemonics in conflict. -/
  | check
  /-- Print the binding tree, or its JSON. -/
  | tree (json : Bool)
  /-- Print the binding that a sequence of mnemonics leads to. -/
  | resolve (keys : String)
  /-- Open it. -/
  | openFile
  /-- Reload it whenever it changes. -/
  | watch
  deriving DecidableEq, Repr

/-- What the program is asked to do. -/
inductive Command where
  /-- Do something with an rc file: the one at the given path, or else the one in the home
  directory. -/
  | onRcFile (task : Task) (config : Option String)
  /-- Print the template of rc files. -/
  | template
  deriving DecidableEq, Repr

/-- Why reading the arguments ends without a command. -/
inductive Stop where
  /-- They are wrong. -/
  | refused
  /-- They ask for help. -/
  | help
  /-- They ask for the version. -/
  | version
  deriving DecidableEq, Repr

/-- The switches. -/
inductive Switch where
  | verbose
  | config
  | json
  | help
  | version
  deriving DecidableEq, Repr

namespace Switch

/-- The long name of a switch. -/
def long : Switch → List Char
  | .verbose => "verbose".toList
  | .config => "config".toList
  | .json => "json".toList
  | .help => "help".toList
  | .version => "version".toList

/-- The short name of a switch, if it has one. -/
def short? : Switch → Option Char
  | .verbose => some 'v'
  | .config => some 'c'
  | .json => none
  | .help => some 'h'
  | .version => some 'V'

end Switch

/-- The arguments read so far. -/
structure Given where
  /-- The switches without a value. -/
  flags : List Switch := []
  /-- The value of the switch `config`. -/
  config : Option String := none
  /-- The operands. -/
  operands : List String := []

namespace Given

/-- One more switch without a value. -/
def flag (g : Given) (s : Switch) : Except Stop Given :=
  match s with
  | .help => .error .help
  | .version => .error .version
  | s => if s ∈ g.flags then .error .refused else .ok { g with flags := s :: g.flags }

/-- The value of the switch `config`, which must not be empty. -/
def setConfig (g : Given) (value : List Char) : Except Stop Given :=
  if value.isEmpty || g.config.isSome then .error .refused
  else .ok { g with config := some (String.ofList value) }

/-- One more operand, of at most `limit`. -/
def operand (g : Given) (limit : Nat) (value : String) : Except Stop Given :=
  if g.operands.length < limit then .ok { g with operands := g.operands ++ [value] }
  else .error .refused

end Given

/-- Whether an argument is written as a switch; a lone `-` is an operand. -/
def isSwitch : List Char → Bool
  | '-' :: _ :: _ => true
  | _ => false

/-- Reads short names; tells whether the value of `config` is still to come. -/
def shortSwitches (known : List Switch) (g : Given) : List Char → Except Stop (Given × Bool)
  | [] => .ok (g, false)
  | c :: rest =>
    match known.find? fun s => s.short? == some c with
    | none => .error .refused
    | some .config =>
      match rest with
      | [] => .ok (g, true)
      | '=' :: value => (g.setConfig value).map (·, false)
      | value => (g.setConfig value).map (·, false)
    | some s => do shortSwitches known (← g.flag s) rest

/-- Reads a long name; tells whether the value of `config` is still to come. -/
def longSwitch (known : List Switch) (g : Given) (text : List Char) : Except Stop (Given × Bool) :=
  let name := text.takeWhile (· != '=')
  let value? := (text.dropWhile (· != '=')).tail?
  match known.find? fun s => s.long == name, value? with
  | none, _ => .error .refused
  | some .config, none => .ok (g, true)
  | some .config, some value => (g.setConfig value).map (·, false)
  | some _, some _ => .error .refused
  | some s, none => (g.flag s).map (·, false)

/-- Reads one argument that is written as a switch. -/
def switchArgument (known : List Switch) (g : Given) : List Char → Except Stop (Given × Bool)
  | '-' :: '-' :: name => longSwitch known g name
  | '-' :: names => shortSwitches known g names
  | _ => .error .refused

/-- Reads the arguments of a command; `pending` if the value of `config` comes next. -/
def scan (known : List Switch) (limit : Nat) (g : Given) (pending : Bool) :
    List String → Except Stop Given
  | [] => if pending then .error .refused else .ok g
  | arg :: rest =>
    if pending then
      if isSwitch arg.toList then .error .refused
      else do scan known limit (← g.setConfig arg.toList) false rest
    else if arg = "--" then rest.foldlM (fun g value => g.operand limit value) g
    else if isSwitch arg.toList then do
      let (g, pending) ← switchArgument known g arg.toList
      scan known limit g pending rest
    else do scan known limit (← g.operand limit arg) false rest

/-- The names of the commands. -/
def commandNames : List String := ["check", "tree", "resolve", "open", "watch", "template", "help"]

/-- Reads the arguments after a command's name. -/
def commandArguments (name : String) (args : List String) : Except Stop Command :=
  let plain (task : Task) : Except Stop Command := do
    let g ← scan [.verbose, .config, .help] 0 {} false args
    return .onRcFile task g.config
  match name with
  | "check" => plain .check
  | "open" => plain .openFile
  | "watch" => plain .watch
  | "tree" => do
    let g ← scan [.verbose, .config, .json, .help] 0 {} false args
    return .onRcFile (.tree (g.flags.contains .json)) g.config
  | "resolve" => do
    let g ← scan [.verbose, .config, .help] 1 {} false args
    match g.operands with
    | [keys] => .ok (.onRcFile (.resolve keys) g.config)
    | _ => .error .refused
  | "template" => do
    let _ ← scan [.verbose, .help] 0 {} false args
    return .template
  | "help" =>
    match args with
    | [] => .error .help
    | [command] => .error (if command ∈ commandNames then .help else .refused)
    | _ => .error .refused
  | _ => .error .refused

/-- Reads the arguments of the program. -/
def parse (g : Given) : List String → Except Stop Command
  | [] => .error .refused
  | arg :: rest =>
    if isSwitch arg.toList then do
      let (g, _) ← switchArgument [.verbose, .help, .version] g arg.toList
      parse g rest
    else commandArguments arg rest

/-- The command that the arguments ask for. -/
def Command.ofArguments (args : List String) : Except Stop Command := parse {} args

end LeaderKey.CommandLine
