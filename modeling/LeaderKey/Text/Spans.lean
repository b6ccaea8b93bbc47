/-!
# Sets of code points as lists of spans

A character class of the Unicode standard is given as a list of spans of code points, in
ascending order: `contains` stops at the first span that begins above the code point.
-/

namespace LeaderKey.Text

/-- A span of code points: its first and its last one. -/
abbrev Span := Nat × Nat

/-- Whether one of the spans holds `n`; the search ends at the first span that begins above `n`. -/
def Span.contains (n : Nat) : List Span → Bool
  | [] => false
  | s :: rest => !(n < s.1) && (n ≤ s.2 || contains n rest)

end LeaderKey.Text
