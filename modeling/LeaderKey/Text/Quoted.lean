import LeaderKey.Text.Printable

/-!
# Texts in quotes

How a text is shown inside quotes. Quotes, backslashes and the usual control characters have short
escapes; a character that does not show as itself is written by its code point, as in `\u{7f}`.
-/

namespace LeaderKey.Text

/-- How one character is written between quotes. -/
def quotedChar (c : Char) : List Char :=
  if c = '\x00' then ['\\', '0']
  else if c = '\t' then ['\\', 't']
  else if c = '\r' then ['\\', 'r']
  else if c = '\n' then ['\\', 'n']
  else if c = '"' then ['\\', '"']
  else if c = '\\' then ['\\', '\\']
  else if showsAsItself c then [c]
  else ['\\', 'u', '{'] ++ Nat.toDigits 16 c.toNat ++ ['}']

/-- A text in quotes. -/
def quoted (text : List Char) : List Char := '"' :: (text.flatMap quotedChar ++ ['"'])

end LeaderKey.Text
