/-!
# Faults in a config text

Reading a config text fails with a problem and the text that was unread when the problem was
noticed. Where that is, as a line and a column, is worked out once, from the text before it:
`Position.after` walks over that text, and `Position.after_eq` says what it counts.
-/

namespace LeaderKey.Grammar

/-- What can be wrong with a config text. -/
inductive Problem where
  /-- A quoted text ends with its line or with the whole text. -/
  | unterminatedQuote
  /-- A backslash in quotes before a character that needs no escape. -/
  | badEscape
  /-- A `\u` that no character follows as four hexadecimal digits. -/
  | badUnicodeEscape
  /-- A triple quote with no other one after it. -/
  | unterminatedTripleQuote
  /-- No value where there must be one. -/
  | expectedValue
  /-- A list that runs to the end of the text. -/
  | unterminatedList
  /-- Neither a comma, nor a new line, nor the end of the list after an item. -/
  | expectedItemEnd
  /-- No key where there must be one. -/
  | expectedKey
  /-- Nothing after a key that leads to its value. -/
  | expectedSeparator
  /-- An object that runs to the end of the text. -/
  | unterminatedObject
  /-- Neither a comma, nor a new line, nor the end of the object after a field. -/
  | expectedFieldEnd
  /-- Something after the braces around the whole text. -/
  | trailingContent
  deriving DecidableEq, Repr

/-- The wording of a problem. -/
def Problem.message : Problem → String
  | .unterminatedQuote => "unterminated quoted string"
  | .badEscape => "invalid escape sequence"
  | .badUnicodeEscape => "invalid unicode escape"
  | .unterminatedTripleQuote => "unterminated triple-quoted string"
  | .expectedValue => "expected a value"
  | .unterminatedList => "unterminated list, expected ']'"
  | .expectedItemEnd => "expected ',' or ']' in list"
  | .expectedKey => "expected a key"
  | .expectedSeparator => "expected ':', '=' or '\x7b' after key"
  | .unterminatedObject => "unterminated object, expected '\x7d'"
  | .expectedFieldEnd => "expected ',' or newline after field"
  | .trailingContent => "unexpected content after root object"

/-- A problem and the text that was unread when it was noticed. -/
structure Fault where
  /-- What is wrong. -/
  problem : Problem
  /-- The text from the place where it is wrong. -/
  rest : List Char
  deriving DecidableEq

/-- What reading gives: a value and the text after it, or a fault. -/
abbrev Result (α : Type) := Except Fault (α × List Char)

/-- What reading gives where nothing of the kind may stand: then `none`. -/
abbrev Attempt (α : Type) := Except Fault (Option (α × List Char))

/-! ## Places in a text -/

/-- A place in a text; both counts begin at one. -/
structure Position where
  /-- The line, which only a line feed ends. -/
  line : Nat
  /-- The column, in characters. -/
  column : Nat
  deriving DecidableEq, Repr

namespace Position

/-- The place after one more character. -/
def next (p : Position) (c : Char) : Position :=
  if c = '\n' then ⟨p.line + 1, 1⟩ else ⟨p.line, p.column + 1⟩

/-- The place right after a text. -/
def after (text : List Char) : Position := text.foldl next ⟨1, 1⟩

/-- The place in `text` where `rest`, a suffix of it, begins. -/
def ofRest (text rest : List Char) : Position := after (text.take (text.length - rest.length))

/-- One more character at the end takes the place one further. -/
theorem after_append_singleton (text : List Char) (c : Char) :
    after (text ++ [c]) = (after text).next c := by
  simp [after]

/-- The line counts the line feeds, and the column the characters after the last of them. -/
theorem after_eq (text : List Char) :
    after text = ⟨1 + text.count '\n', 1 + (text.reverse.takeWhile (· != '\n')).length⟩ := by
  obtain ⟨r, rfl⟩ : ∃ r, text = r.reverse := ⟨text.reverse, by simp⟩
  induction r with
  | nil => rfl
  | cons c r ih =>
    rw [List.reverse_cons, after_append_singleton, ih, next]
    by_cases hc : c = '\n'
    · simp [hc, Nat.add_assoc]
    · simp [hc, Nat.add_comm]

end Position

end LeaderKey.Grammar
