import LeaderKey.Grammar.Tree
import LeaderKey.Text.Split
import LeaderKey.Value.Access
import LeaderKey.Value.Shown

/-!
# Config documents

A document is a whole config text: the fields of its root object, with or without braces around
them. `Document.parse` reads one or says where the text is wrong; the other functions look values up
by a dotted path.
-/

namespace LeaderKey

/-- Where a text is not a config text, and what is wrong there. -/
structure ParseError where
  /-- The place. -/
  position : Grammar.Position
  /-- What is wrong. -/
  problem : Grammar.Problem
  deriving DecidableEq, Repr

/-- The wording of a parse error. -/
def ParseError.message (e : ParseError) : String :=
  s!"Parse error on line {e.position.line}, column {e.position.column}: {e.problem.message}"

/-- Reads the whole of a text as the fields of a root object. -/
def Grammar.document (s : List Char) : Except Grammar.Fault (List Field) :=
  match afterGap s with
  | '{' :: rest =>
    match fields .brace rest with
    | .error fault => .error fault
    | .ok (fs, after) =>
      match afterGap after with
      | [] => .ok fs
      | left => .error ⟨.trailingContent, left⟩
  | start => (fields .endOfText start).map (·.1)

/-- A config document. -/
structure Document where
  /-- The root object. -/
  root : Object
  deriving DecidableEq

namespace Document

/-- Reads a document, or tells the first place where the text is wrong. -/
def parse (text : String) : Except ParseError Document :=
  match Grammar.document text.toList with
  | .ok fs => .ok ⟨Object.ofFields fs⟩
  | .error fault => .error ⟨.ofRest text.toList fault.rest, fault.problem⟩

/-- The keys of a dotted path. -/
def pathKeys (path : String) : List String := Text.pieces '.' path

/-- The value at a dotted path. -/
def lookup (d : Document) (path : String) : Option Value := d.root.lookup (pathKeys path)

/-- Whether there is a value other than `null` at a dotted path. -/
def hasPath (d : Document) (path : String) : Bool := (Value.present? (d.lookup path)).isSome

/-- The value at a dotted path. -/
def getValue (d : Document) (path : String) : Except AccessError Value :=
  Value.require (d.lookup path) path

/-- The scalar at a dotted path, as text. -/
def getText (d : Document) (path : String) : Except AccessError String :=
  Value.requireText (d.lookup path) path

/-- The object at a dotted path. -/
def getObject (d : Document) (path : String) : Except AccessError Object :=
  Value.requireObject (d.lookup path) path

end Document

end LeaderKey
