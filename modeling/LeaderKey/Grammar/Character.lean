import LeaderKey.Text.Blank

/-!
# Classes of characters

A bare word holds no blank and no reserved character; a bare key holds no dot either, because a dot
separates the keys of a path.
-/

namespace LeaderKey.Grammar

open LeaderKey.Text

/-- The characters that end a bare word. -/
def reserved : List Char :=
  ['$', '"', '{', '}', '[', ']', ':', '=', ',', '+', '#', '\x60', '^', '?', '!', '@', '*', '&',
    '\\']

/-- Whether a bare word may hold `c`. -/
def isBareChar (c : Char) : Bool := !isBlank c && !reserved.contains c

/-- Whether a bare key may hold `c`. -/
def isKeyChar (c : Char) : Bool := isBareChar c && c != '.'

/-- A bare key is a bare word, but for comment marks. -/
theorem isBareChar_of_isKeyChar {c : Char} (h : isKeyChar c = true) : isBareChar c = true := by
  simp only [isKeyChar, Bool.and_eq_true] at h
  exact h.1

/-- No blank is a bare character. -/
theorem not_isBareChar_of_isBlank {c : Char} (h : isBlank c = true) : isBareChar c = false := by
  simp [isBareChar, h]

end LeaderKey.Grammar
