import LeaderKey.Binding

/-!
# JSON output

A compiled config can be written as JSON, on one line or indented by two spaces. Texts escape the
quote, the backslash and control characters, and nothing else.
-/

namespace LeaderKey

/-- The JSON values that a config needs. -/
inductive Json where
  | null
  | number (n : Nat)
  | string (text : String)
  | array (items : List Json)
  | object (members : List (String × Json))

namespace Json

/-- A digit of a hexadecimal number, in lower case. -/
def hexDigit (n : Nat) : Char := Nat.digitChar (n % 16)

/-- How one character is written in a JSON text. -/
def escapedChar (c : Char) : List Char :=
  if c = '"' then ['\\', '"']
  else if c = '\\' then ['\\', '\\']
  else if c = '\x08' then ['\\', 'b']
  else if c = '\x0c' then ['\\', 'f']
  else if c = '\n' then ['\\', 'n']
  else if c = '\r' then ['\\', 'r']
  else if c = '\t' then ['\\', 't']
  else if c.toNat < 0x20 then
    ['\\', 'u', '0', '0', hexDigit (c.toNat / 16), hexDigit c.toNat]
  else [c]

/-- A text in JSON. -/
def quoted (text : List Char) : List Char := '"' :: (text.flatMap escapedChar ++ ['"'])

mutual

/-- The characters of a value on one line, without blanks. -/
def compact : Json → List Char
  | .null => ['n', 'u', 'l', 'l']
  | .number n => Nat.toDigits 10 n
  | .string text => quoted text.toList
  | .array items => '[' :: (compactItems items ++ [']'])
  | .object members => '{' :: (compactMembers members ++ ['}'])

/-- Items with commas between them. -/
def compactItems : List Json → List Char
  | [] => []
  | [item] => compact item
  | item :: next :: rest => compact item ++ (',' :: compactItems (next :: rest))

/-- Members with commas between them. -/
def compactMembers : List (String × Json) → List Char
  | [] => []
  | [(name, value)] => quoted name.toList ++ (':' :: compact value)
  | (name, value) :: next :: rest =>
    quoted name.toList ++ (':' :: compact value) ++ (',' :: compactMembers (next :: rest))

end

/-- A new line and the blanks that begin it, at a level of nesting. -/
def newLine (level : Nat) : List Char := '\n' :: List.replicate (2 * level) ' '

mutual

/-- The characters of a value at a level of nesting, one item or member to a line. -/
def pretty (level : Nat) : Json → List Char
  | .null => ['n', 'u', 'l', 'l']
  | .number n => Nat.toDigits 10 n
  | .string text => quoted text.toList
  | .array [] => ['[', ']']
  | .array (item :: rest) =>
    '[' :: (newLine (level + 1) ++ prettyItems (level + 1) (item :: rest) ++ newLine level ++ [']'])
  | .object [] => ['{', '}']
  | .object (member :: rest) =>
    '{' :: (newLine (level + 1) ++ prettyMembers (level + 1) (member :: rest) ++ newLine level ++
      ['}'])

/-- Items with a comma and a new line between them. -/
def prettyItems (level : Nat) : List Json → List Char
  | [] => []
  | [item] => pretty level item
  | item :: next :: rest =>
    pretty level item ++ (',' :: newLine level) ++ prettyItems level (next :: rest)

/-- Members with a comma and a new line between them. -/
def prettyMembers (level : Nat) : List (String × Json) → List Char
  | [] => []
  | [(name, value)] => quoted name.toList ++ (':' :: ' ' :: pretty level value)
  | (name, value) :: next :: rest =>
    quoted name.toList ++ (':' :: ' ' :: pretty level value) ++ (',' :: newLine level) ++
      prettyMembers level (next :: rest)

end

/-- A value on one line. -/
def toLine (j : Json) : String := String.ofList j.compact

/-- A value over several lines. -/
def toLines (j : Json) : String := String.ofList (j.pretty 0)

end Json

/-- A chord as JSON. -/
def KeyChord.toJson (chord : KeyChord) : Json :=
  .object [
    ("modifiers", .array (chord.modifiers.map fun m => .string m.name)),
    ("keyCode", .number chord.code.val.toNat),
    ("keyChar", .string (String.singleton chord.char))]

/-- The members that actions and groups have in common. -/
def Label.members (label : Label) (kind : String) : List (String × Json) :=
  [("kind", .string kind), ("key", .string (String.singleton label.key)),
   ("keyChord", label.chord.toJson), ("description", .string label.description)]

namespace Binding

mutual

/-- A binding as JSON. -/
def toJson : Binding → Json
  | .action label actionId => .object (label.members "single" ++ [("actionId", .string actionId)])
  | .group label children =>
    .object (label.members "group" ++ [("children", .array (listToJson children))])

/-- Bindings as JSON. -/
def listToJson : List Binding → List Json
  | [] => []
  | b :: rest => toJson b :: listToJson rest

end

end Binding

/-- A config as JSON. -/
def Config.toJson (c : Config) : Json :=
  .object [
    ("appearance", .object [("title", (c.appearance.title.map Json.string).getD .null)]),
    ("bindings", .array (Binding.listToJson c.bindings))]

end LeaderKey
