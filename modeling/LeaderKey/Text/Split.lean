/-!
# Splitting a text

The pieces of a text between the occurrences of a separator. There is always one piece; joining the
pieces with the separator gives the text back (`join_split`).
-/

namespace LeaderKey.Text

/-- The first piece of a text and the further ones. -/
def split (separator : Char) : List Char → List Char × List (List Char)
  | [] => ([], [])
  | c :: rest =>
    if c = separator then ([], (split separator rest).1 :: (split separator rest).2)
    else (c :: (split separator rest).1, (split separator rest).2)

/-- The pieces of a text. -/
def pieces (separator : Char) (text : String) : List String :=
  ((split separator text.toList).1 :: (split separator text.toList).2).map String.ofList

/-- Joined with the separator, the pieces are the text. -/
theorem join_split (separator : Char) (text : List Char) :
    (split separator text).1 ++ (split separator text).2.flatMap (separator :: ·) = text := by
  induction text with
  | nil => rfl
  | cons c rest ih =>
    rw [split]
    split
    · rename_i h
      subst h
      simpa using ih
    · simpa using ih

end LeaderKey.Text
