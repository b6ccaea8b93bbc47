import LeaderKey.Text.Blank

/-!
# Gaps

Between fields, items and brackets a text may have a gap: blanks, new lines and comments, which
begin with `#` or `//` and run to the end of their line. A gap that crosses a new line separates
fields as well as a comma does, so reading a gap tells whether it did.
-/

namespace LeaderKey.Grammar

open LeaderKey.Text

/-- Whether a comment begins here. -/
def startsComment : List Char → Bool
  | '#' :: _ => true
  | '/' :: '/' :: _ => true
  | _ => false

/-- Reads the gap at the front of a text, inside a comment if `inComment`: whether the gap crosses
a new line, and the text after it. -/
def gap (inComment : Bool) : List Char → Bool × List Char
  | [] => (false, [])
  | c :: rest =>
    if c = '\n' then (true, (gap false rest).2)
    else if inComment || isInlineBlank c then gap inComment rest
    else if startsComment (c :: rest) then gap true rest
    else (false, c :: rest)

/-- The text after the gap at the front of a text. -/
def afterGap (s : List Char) : List Char := (gap false s).2

/-- Whether the gap at the front of a text crosses a new line. -/
def crossesLine (s : List Char) : Bool := (gap false s).1

/-- The text after a gap is a suffix of the text. -/
theorem gap_suffix (inComment : Bool) (s : List Char) : (gap inComment s).2 <:+ s := by
  induction s generalizing inComment with
  | nil => exact List.suffix_refl _
  | cons c rest ih =>
    rw [gap]
    split
    · exact (ih _).trans (List.suffix_cons _ _)
    · split
      · exact (ih _).trans (List.suffix_cons _ _)
      · split
        · exact (ih _).trans (List.suffix_cons _ _)
        · exact List.suffix_refl _

/-- The text after a gap is a suffix of the text. -/
theorem afterGap_suffix (s : List Char) : afterGap s <:+ s := gap_suffix false s

/-- A gap is not negative. -/
theorem afterGap_length_le (s : List Char) : (afterGap s).length ≤ s.length :=
  (afterGap_suffix s).length_le

end LeaderKey.Grammar
