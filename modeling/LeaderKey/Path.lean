import LeaderKey.Text.Split

/-!
# Paths

A path is a text of names with slashes between them; one that begins with a slash starts at the
root. Empty names and the name `.` lead nowhere, and `..` leads up. `entry?` takes a path apart
into a directory and a name in it, by its text alone.
-/

namespace LeaderKey.Path

/-- The names of a path, with the empty ones. -/
def names (path : String) : List String := Text.pieces '/' path

/-- Whether a path starts at the root. -/
def isAbsolute (path : String) : Bool := path.toList.head? == some '/'

/-- Whether slashes follow the last name of a path. -/
def endsInSlash (path : String) : Bool := path.toList.getLast? == some '/'

/-- Whether a path, or a part of one, holds the null character, which no name can have. -/
def hasNull (path : String) : Bool := path.toList.contains '\x00'

/-- A path inside a directory; an absolute path stays as it is. -/
def join (directory path : String) : String :=
  if isAbsolute path then path
  else if directory.isEmpty || endsInSlash directory then directory ++ path
  else directory ++ "/" ++ path

/-- Whether a name leads nowhere. -/
def isIdle (name : String) : Bool := name == "" || name == "."

/-- The path of the directory that holds the entry which a path names, and the name of the entry.
Idle names at the end do not count; a path without names, or with `..` at its end, names no
entry. -/
def entry? (path : String) : Option (String × String) :=
  match (names path).reverse.dropWhile isIdle with
  | [] => none
  | name :: before =>
    let directory :=
      match before.dropWhile isIdle with
      | [] => if isAbsolute path then "/" else "."
      | last :: rest => "/".intercalate (last :: rest).reverse
    if name = ".." then none else some (directory, name)

end LeaderKey.Path
