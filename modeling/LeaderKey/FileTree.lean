import LeaderKey.Path

/-!
# File trees

The files and directories that a run can see: a finite map from places to nodes, and the directory
from which relative paths start. A place is the list of names that leads to a node from the root;
the root itself is always a directory. `node?_put` and `node?_erase` say what a change does to the
map; a failed operation changes nothing.

A path is followed name by name up to its last one, and the operations differ in what they do with
that one: `target` says what it is.
-/

namespace LeaderKey

/-- Why an operation on files failed. -/
inductive FileError where
  | notFound
  | busy
  | alreadyExists
  | notDirectory
  | isDirectory
  | invalid
  | nameTooLong
  | notEmpty
  /-- A path holds the null character. -/
  | nullCharacter
  /-- The bytes of a file are no text in UTF-8. -/
  | notText
  deriving DecidableEq, Repr

/-- The system's wording of a file error. -/
def FileError.message : FileError → String
  | .notFound => "No such file or directory (os error 2)"
  | .busy => "Device or resource busy (os error 16)"
  | .alreadyExists => "File exists (os error 17)"
  | .notDirectory => "Not a directory (os error 20)"
  | .isDirectory => "Is a directory (os error 21)"
  | .invalid => "Invalid argument (os error 22)"
  | .nameTooLong => "File name too long (os error 36)"
  | .notEmpty => "Directory not empty (os error 39)"
  | .nullCharacter => "file name contained an unexpected NUL byte"
  | .notText => "stream did not contain valid UTF-8"

/-- What can stand at a place. -/
inductive Node where
  /-- A file with its bytes. -/
  | file (content : ByteArray)
  /-- A directory. -/
  | directory

/-- The names that lead from the root to a node. -/
abbrev Place := List String

/-- Files and directories. -/
structure FileTree where
  /-- The nodes below the root. -/
  nodes : List (Place × Node) := []
  /-- Where relative paths start. -/
  workingDirectory : Place := []

namespace FileTree

/-- What stands at a place. -/
def node? (t : FileTree) (p : Place) : Option Node :=
  if p = [] then some .directory else t.nodes.lookup p

/-- Puts a node at a place, over what was there. -/
def put (t : FileTree) (p : Place) (n : Node) : FileTree :=
  { t with nodes := (p, n) :: t.nodes }

/-- Takes away what stands at a place. -/
def erase (t : FileTree) (p : Place) : FileTree :=
  { t with nodes := t.nodes.filter fun e => e.1 != p }

/-- After a node has been put at a place, it is there, and nothing else has changed. -/
theorem node?_put (t : FileTree) {p : Place} (hp : p ≠ []) (n : Node) (q : Place) :
    (t.put p n).node? q = if q = p then some n else t.node? q := by
  by_cases hq : q = p
  · subst hq
    simp [node?, put, hp]
  · have : (q == p) = false := by simpa using hq
    simp [node?, put, hq, List.lookup_cons, this]

/-- Looking a place up after another one has been filtered out. -/
theorem lookup_filter_ne (p q : Place) (nodes : List (Place × Node)) :
    (nodes.filter fun e => e.1 != p).lookup q = if q = p then none else nodes.lookup q := by
  induction nodes with
  | nil => simp
  | cons e rest ih =>
    obtain ⟨r, n⟩ := e
    by_cases hr : r = p
    · subst hr
      rw [List.filter_cons_of_neg (by simp), ih]
      by_cases hq : q = r
      · simp [hq]
      · have : (q == r) = false := by simpa using hq
        simp [hq, List.lookup_cons, this]
    · rw [List.filter_cons_of_pos (by simpa using hr)]
      by_cases hq : q = r
      · subst hq
        simp [hr]
      · have : (q == r) = false := by simpa using hq
        simpa [List.lookup_cons, this] using ih

/-- After a place has been cleared, nothing is there, and nothing else has changed. -/
theorem node?_erase (t : FileTree) {p : Place} (hp : p ≠ []) (q : Place) :
    (t.erase p).node? q = if q = p then none else t.node? q := by
  unfold node? erase
  rw [lookup_filter_ne]
  by_cases hq : q = p
  · subst hq; simp [hp]
  · simp [hq]

/-! ## Following paths -/

/-- The most bytes that a name may have. -/
def nameLimit : Nat := 255

/-- The most bytes that a path may have. -/
def pathLimit : Nat := 4095

/-- What stands under a name in a directory. -/
def lookUp (t : FileTree) (directory : Place) (name : String) : Except FileError (Option Node) :=
  if nameLimit < name.utf8ByteSize then .error .nameTooLong
  else .ok (t.node? (directory ++ [name]))

/-- Follows names from a place; each must lead to a directory. -/
def descend (t : FileTree) (here : Place) : List String → Except FileError Place
  | [] => .ok here
  | name :: rest =>
    if name = "." then descend t here rest
    else if name = ".." then descend t here.dropLast rest
    else do
      match ← t.lookUp here name with
      | none => .error .notFound
      | some (.file _) => .error .notDirectory
      | some .directory => descend t (here ++ [name]) rest

/-- What a path leads to once all its names but the last have been followed. -/
inductive Target where
  /-- The root: the path has no names. -/
  | root
  /-- The directory itself: the last name is `.`. -/
  | self (directory : Place)
  /-- The directory above: the last name is `..`. -/
  | above (directory : Place)
  /-- An entry of the directory, which need not exist; `slash` if slashes follow its name. -/
  | entry (directory : Place) (name : String) (slash : Bool)

/-- What a path leads to. -/
def target (t : FileTree) (path : String) : Except FileError Target :=
  if Path.hasNull path then .error .nullCharacter
  else if path.isEmpty then .error .notFound
  else if pathLimit < path.utf8ByteSize then .error .nameTooLong
  else
    let names := (Path.names path).filter (· ≠ "")
    let start := if Path.isAbsolute path then [] else t.workingDirectory
    match names.getLast? with
    | none => .ok .root
    | some last => do
      let directory ← t.descend start names.dropLast
      if last = "." then return .self directory
      else if last = ".." then return .above directory
      else return .entry directory last (Path.endsInSlash path)

/-- The place that a path leads to, and what stands there. -/
def find (t : FileTree) (path : String) : Except FileError (Place × Node) := do
  match ← t.target path with
  | .root => .ok ([], .directory)
  | .self directory => .ok (directory, .directory)
  | .above directory => .ok (directory.dropLast, .directory)
  | .entry directory name slash =>
    match ← t.lookUp directory name with
    | none => .error .notFound
    | some .directory => .ok (directory ++ [name], .directory)
    | some (.file content) =>
      if slash then .error .notDirectory else .ok (directory ++ [name], .file content)

/-! ## Operations -/

/-- Whether there is something at a path. -/
def has (t : FileTree) (path : String) : Bool := (t.find path).toOption.isSome

/-- Reads the text of a file. -/
def read (t : FileTree) (path : String) : Except FileError String := do
  match ← t.find path with
  | (_, .directory) => .error .isDirectory
  | (_, .file content) =>
    match String.fromUTF8? content with
    | some text => .ok text
    | none => .error .notText

/-- Writes a file, making it if there is none. -/
def write (t : FileTree) (path : String) (content : ByteArray) : Except FileError FileTree := do
  match ← t.target path with
  | .root | .self _ | .above _ => .error .isDirectory
  | .entry directory name slash =>
    if slash then .error .isDirectory
    else
      match ← t.lookUp directory name with
      | some .directory => .error .isDirectory
      | _ => .ok (t.put (directory ++ [name]) (.file content))

/-- Makes a directory. -/
def makeDirectory (t : FileTree) (path : String) : Except FileError FileTree := do
  match ← t.target path with
  | .root | .self _ | .above _ => .error .alreadyExists
  | .entry directory name _ =>
    match ← t.lookUp directory name with
    | some _ => .error .alreadyExists
    | none => .ok (t.put (directory ++ [name]) .directory)

/-- Whether something stands below a place. -/
def hasBelow (t : FileTree) (p : Place) : Bool :=
  t.nodes.any fun e => p.isPrefixOf e.1 && e.1 != p

/-- Removes a file or an empty directory. -/
def remove (t : FileTree) (path : String) : Except FileError FileTree := do
  match ← t.target path with
  | .root => .error .busy
  | .self _ => .error .invalid
  | .above _ => .error .notEmpty
  | .entry directory name slash =>
    match ← t.lookUp directory name with
    | none => .error .notFound
    | some (.file _) =>
      if slash then .error .notDirectory else .ok (t.erase (directory ++ [name]))
    | some .directory =>
      if t.hasBelow (directory ++ [name]) then .error .notEmpty
      else .ok (t.erase (directory ++ [name]))

/-! ## Whole files

A whole file is put into place in one step: it is written under a temporary name in the directory
of its entry, and then renamed.
-/

/-- Why a whole file could not be put into place. -/
inductive InstallError where
  /-- The temporary file could not be made. -/
  | notBegun (e : FileError)
  /-- The temporary file could not be renamed. -/
  | notCommitted (e : FileError)
  deriving DecidableEq, Repr

/-- The wording of an install error. -/
def InstallError.message : InstallError → String
  | .notBegun e => "Failed to open for atomic write: " ++ e.message
  | .notCommitted e => "Failed to commit atomic write: " ++ e.message

/-- How many bytes a temporary name has more than the name that it stands for. -/
def temporaryExcess : Nat := 8

/-- Puts a whole file into place, over a file that is there. -/
def install (t : FileTree) (path : String) (content : ByteArray) :
    Except InstallError FileTree :=
  match Path.entry? path with
  | none => .error (.notBegun .isDirectory)
  | some (parent, name) =>
    if Path.hasNull parent then .error (.notBegun .invalid)
    else
      match t.find parent with
      | .error e => .error (.notBegun e)
      | .ok (_, .file _) => .error (.notBegun .notDirectory)
      | .ok (directory, .directory) =>
        if Path.hasNull name then .error (.notBegun .invalid)
        else if nameLimit < name.utf8ByteSize + temporaryExcess then
          .error (.notBegun .nameTooLong)
        else
          match t.node? (directory ++ [name]) with
          | some .directory => .error (.notCommitted .isDirectory)
          | _ => .ok (t.put (directory ++ [name]) (.file content))

end FileTree

end LeaderKey
