import LeaderKey.Text.Spans

/-!
# Blanks

The white space of a config text is Unicode's property `White_Space` and, inside a line, also the
byte order mark U+FEFF, which editors leave at the head of a file. Only the line feed ends a line.
-/

namespace LeaderKey.Text

/-- Unicode's property `White_Space`. -/
def whiteSpace : List Span :=
  [(0x9, 0xD), (0x20, 0x20), (0x85, 0x85), (0xA0, 0xA0), (0x1680, 0x1680), (0x2000, 0x200A),
   (0x2028, 0x2029), (0x202F, 0x202F), (0x205F, 0x205F), (0x3000, 0x3000)]

/-- White space in Unicode's sense. -/
def isWhiteSpace (c : Char) : Bool := Span.contains c.toNat whiteSpace

/-- White space, or the byte order mark. -/
def isBlank (c : Char) : Bool := isWhiteSpace c || c == '\ufeff'

/-- A blank that does not end the line. -/
def isInlineBlank (c : Char) : Bool := c != '\n' && isBlank c

/-- The line feed is no blank inside a line. -/
@[simp] theorem isInlineBlank_newline : isInlineBlank '\n' = false := rfl

/-- A blank inside a line is a blank. -/
theorem isBlank_of_isInlineBlank {c : Char} (h : isInlineBlank c = true) : isBlank c = true := by
  simp only [isInlineBlank, Bool.and_eq_true] at h
  exact h.2

end LeaderKey.Text
