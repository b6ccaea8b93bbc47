import LeaderKey.Value
import LeaderKey.Text.Quoted

/-!
# How values are shown

A value is shown on one line: `{"k": v, "l": [1, x]}`. Texts and keys stand in quotes, numbers as
they were written.
-/

namespace LeaderKey

namespace Value

mutual

/-- The characters that show a value. -/
def shown : Value → List Char
  | .null => ['n', 'u', 'l', 'l']
  | .boolean true => ['t', 'r', 'u', 'e']
  | .boolean false => ['f', 'a', 'l', 's', 'e']
  | .number spelling => spelling.toList
  | .string text => Text.quoted text.toList
  | .list items => '[' :: (shownItems items ++ [']'])
  | .object entries => '{' :: (shownEntries entries ++ ['}'])

/-- Shown items with a comma and a space between neighbours. -/
def shownItems : List Value → List Char
  | [] => []
  | [item] => shown item
  | item :: next :: rest => shown item ++ (',' :: ' ' :: shownItems (next :: rest))

/-- Shown entries with a comma and a space between neighbours. -/
def shownEntries : List (String × Value) → List Char
  | [] => []
  | [(key, value)] => Text.quoted key.toList ++ (':' :: ' ' :: shown value)
  | (key, value) :: next :: rest =>
    Text.quoted key.toList ++ (':' :: ' ' :: shown value) ++
      (',' :: ' ' :: shownEntries (next :: rest))

end

/-- A value as text. -/
def toText (v : Value) : String := String.ofList v.shown

end Value

/-- An object as text. -/
def Object.toText (o : Object) : String := (Value.object o).toText

end LeaderKey
