import LeaderKey.CommandLine.Run

/-!
# The program

Gives a command the files that it is about, and carries its report out: prints the texts, writes the
files that it made, and ends with the code. What a command does is decided by `CommandLine.run`.
-/

namespace LeaderKey

/-- The path that leads to a place from the root. -/
def Place.toPath (p : Place) : String := "/" ++ "/".intercalate p

/-- What stands at a place of the system. -/
def Node.probe (p : Place) : IO (Option Node) := do
  match ← (IO.FS.readBinFile p.toPath).toBaseIO with
  | .ok content => return some (.file content)
  | .error (.noFileOrDirectory ..) | .error (.invalidArgument ..) => return none
  | .error (.inappropriateType ..) => return some .directory
  | .error e => throw e

namespace FileTree

/-- Adds what stands on the way along names from a place. -/
def explore (t : FileTree) (here : Place) : List String → IO FileTree
  | [] => return t
  | name :: rest =>
    if Path.isIdle name then t.explore here rest
    else if name = ".." then t.explore here.dropLast rest
    else do
      match ← Node.probe (here ++ [name]) with
      | none => return t
      | some (.file content) => return t.put (here ++ [name]) (.file content)
      | some .directory =>
        (t.put (here ++ [name]) .directory).explore (here ++ [name]) rest

/-- What stands on the way to the working directory, and from there to a path. -/
def around (path : String) : IO FileTree := do
  let workingDirectory := (Path.names (← IO.currentDir).toString).filter (· ≠ "")
  let t ← explore { workingDirectory } [] workingDirectory
  t.explore (if Path.isAbsolute path then [] else workingDirectory) (Path.names path)

/-- Writes the files of a tree that an earlier one does not have, or has with another content. -/
def writeNew (before after : FileTree) : IO Unit :=
  after.nodes.forM fun (p, _) =>
    match after.node? p, before.node? p with
    | some (.file content), some (.file old) =>
      if old == content then return () else IO.FS.writeBinFile p.toPath content
    | some (.file content), _ => IO.FS.writeBinFile p.toPath content
    | _, _ => return ()

end FileTree

namespace CommandLine

/-- Prints what a report says. -/
def Report.print (report : Report) : IO Unit := do
  let out ← IO.getStdout
  out.putStr report.out
  out.flush
  (← IO.getStderr).putStr report.err

/-- Looks once a second for a change of the rc file, and reloads it then. -/
partial def keepWatching (path : String) (store : Store) (before : Except FileError String) :
    IO Unit := do
  IO.sleep 1000
  let files ← FileTree.around path
  let now := files.read path
  match before, now with
  | .ok a, .ok b => if a = b then return ← keepWatching path store before
  | .error a, .error b => if a = b then return ← keepWatching path store before
  | _, _ => pure ()
  let report := watchAgain files path store
  FileTree.writeNew files report.files
  report.print
  keepWatching path ((report.watched.map (·.2)).getD store) (report.files.read path)

/-- Runs the program. A directory that cannot be written to is treated as one that is not there. -/
def perform (args : List String) : IO UInt32 := do
  let home ← IO.getEnv "HOME"
  let path? := (Command.ofArguments args).toOption.bind (·.rcPath? home)
  let files ← match path? with
    | some path => FileTree.around path
    | none => pure {}
  let env : Environment := { files, home, refusal := some "no program to open it with" }
  let report := run env args
  let report ← match ← (FileTree.writeNew files report.files).toBaseIO with
    | .ok () => pure report
    | .error _ => pure (run { env with files := {} } args)
  report.print
  match report.watched with
  | some (path, store) => keepWatching path store (report.files.read path)
  | none => pure ()
  return report.code.toUInt32

end CommandLine

end LeaderKey

/-- Runs the program with its arguments and ends with its code. -/
def main (args : List String) : IO UInt32 := do
  match ← (LeaderKey.CommandLine.perform args).toBaseIO with
  | .ok code => return code
  | .error e =>
    IO.eprint s!"Error: IO error: {e}\n"
    return 1
