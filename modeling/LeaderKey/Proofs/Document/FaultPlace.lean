import LeaderKey.Proofs.Grammar.Mend

/-!
# The place of a parse error

A text that is not a config text is refused with a line, a column and the wording of a problem.
`Position.Follows` says which character a line and a column mean, and that they mean one only.
`Document.parse_error_place` says that everything before that character is right: the text up to
there begins a config text, so what is wrong is the character or what should stand in its place.
-/

namespace LeaderKey

namespace Grammar

/-- The place right after the first `k` characters of a text: the line counts the line feeds among
these characters, and the column the characters after the last of those line feeds. -/
structure Position.Follows (p : Position) (text : List Char) (k : Nat) : Prop where
  /-- The lines before this one have ended. -/
  line : p.line = 1 + (text.take k).count '\n'
  /-- This line has begun. -/
  column : p.column = 1 + ((text.take k).reverse.takeWhile (· != '\n')).length

/-- The place that is worked out from the characters before it follows these characters. -/
theorem Position.follows_after {text : List Char} {k : Nat} :
    (Position.after (text.take k)).Follows text k :=
  ⟨by rw [Position.after_eq], by rw [Position.after_eq]⟩

/-- A place that follows some characters is the one worked out from them. -/
theorem Position.Follows.eq_after {p : Position} {text : List Char} {k : Nat}
    (h : p.Follows text k) : p = Position.after (text.take k) := by
  rw [Position.after_eq, ← h.line, ← h.column]

/-- No place comes back: a line feed takes it to a later line, and without one it stays on its line
and gets further there. -/
theorem Position.after_append_ne (t : List Char) {u : List Char} (h : u ≠ []) :
    Position.after (t ++ u) ≠ Position.after t := by
  rw [Position.after_eq, Position.after_eq]
  intro heq
  obtain ⟨hline, hcolumn⟩ := Position.mk.inj heq
  have hpos := List.length_pos_iff.2 h
  rw [List.count_append] at hline
  -- On the same line the text behind has no line feed, so all of it counts for the column.
  have hnone : '\n' ∉ u := List.count_eq_zero.1 (by omega)
  have hall : ∀ c ∈ u.reverse, (c != '\n') = true := by
    intro c hc
    have hne : c ≠ '\n' := fun hnew => hnone (hnew ▸ List.mem_reverse.1 hc)
    exact bne_iff_ne.2 hne
  rw [List.reverse_append, List.takeWhile_append_of_pos hall, List.length_append,
    List.length_reverse] at hcolumn
  omega

/-- Places after different numbers of characters are different. -/
theorem Position.Follows.unique {p : Position} {text : List Char} {j k : Nat}
    (hj : j ≤ text.length) (hk : k ≤ text.length) (hpj : p.Follows text j)
    (hpk : p.Follows text k) : j = k := by
  wlog hle : j ≤ k generalizing j k
  · exact (this hk hj hpk hpj (by omega)).symm
  by_contra hne
  have hsplit : text.take k = text.take j ++ (text.drop j).take (k - j) := by
    rw [← List.take_add, Nat.add_sub_cancel' hle]
  have hlater : (text.drop j).take (k - j) ≠ [] := by
    refine List.ne_nil_of_length_pos ?_
    rw [List.length_take, List.length_drop]
    omega
  refine Position.after_append_ne (text.take j) hlater ?_
  rw [← hsplit, ← hpj.eq_after, ← hpk.eq_after]

/-- The wordings of the problems. -/
def Problem.wordings : List String :=
  ["unterminated quoted string", "invalid escape sequence", "invalid unicode escape",
    "unterminated triple-quoted string", "expected a value", "unterminated list, expected ']'",
    "expected ',' or ']' in list", "expected a key", "expected ':', '=' or '\x7b' after key",
    "unterminated object, expected '\x7d'", "expected ',' or newline after field",
    "unexpected content after root object"]

/-- Wordings that would tell a reader of the text nothing about what is wrong with it. -/
def Problem.vague : List String :=
  ["unexpected character", "unexpected token", "invalid syntax", "unexpected end of input",
    "expected '\x7d'"]

/-- Every problem has a wording of its own kind. -/
theorem Problem.message_mem (problem : Problem) :
    problem.message ∈ wordings ∧ problem.message ∉ vague := by
  cases problem <;> decide

end Grammar

open Grammar

namespace Document

/-- A parse error comes from a fault, and its place is the one where the fault's text begins. -/
theorem parse_eq_error {text : String} {e : ParseError} (h : parse text = .error e) :
    ∃ fault, document text.toList = .error fault ∧
      e = ⟨.ofRest text.toList fault.rest, fault.problem⟩ := by
  unfold parse at h
  split at h
  · cases h
  · rename_i fault hfault
    cases h
    exact ⟨fault, hfault, rfl⟩

/-- A parse error has the place of one character, or of the end of the text, and no other. The text
before that place begins a text that is accepted. The wording says what is wrong in terms of the
config text. -/
theorem parse_error_place {text : String} {e : ParseError} (h : parse text = .error e) :
    (∃! k, k ≤ text.toList.length ∧ e.position.Follows text.toList k) ∧
      (∀ k ≤ text.toList.length, e.position.Follows text.toList k →
        ∃ more d, parse (String.ofList (text.toList.take k) ++ more) = .ok d) ∧
      e.problem.message ∈ Problem.wordings ∧ e.problem.message ∉ Problem.vague := by
  obtain ⟨fault, hfault, rfl⟩ := parse_eq_error h
  obtain ⟨good, more, fs, hgood, hmore⟩ := document_mends hfault
  -- The place is where the fault's text begins, which is right behind the good part.
  have hlength : text.toList.length - fault.rest.length = good.length := by
    rw [hgood, List.length_append, Nat.add_sub_cancel]
  have hle : good.length ≤ text.toList.length := hlength ▸ Nat.sub_le _ _
  have htake : text.toList.take good.length = good := by rw [hgood, List.take_left]
  have hplace : (Position.ofRest text.toList fault.rest).Follows text.toList good.length := by
    rw [Position.ofRest, hlength]
    exact Position.follows_after
  refine ⟨⟨good.length, ⟨hle, hplace⟩, fun j hj => hj.2.unique hj.1 hle hplace⟩, ?_,
    fault.problem.message_mem⟩
  intro k hk hfollows
  obtain rfl : k = good.length := hfollows.unique hk hle hplace
  refine ⟨String.ofList more, ⟨Object.ofFields fs⟩, ?_⟩
  unfold parse
  rw [htake, String.toList_append, String.toList_ofList, String.toList_ofList, hmore]

/-- An escape that does not exist, in a nested list on the second line: what stands before its
backslash can be closed. -/
theorem parse_error_place_nested :
    parse "a \x7b\n  b: [1, \"x\\q\"]\n\x7d" = .error ⟨⟨2, 12⟩, .badEscape⟩ ∧
      ∃ more d, parse ("a \x7b\n  b: [1, \"x" ++ more) = .ok d := by
  have herror : parse "a \x7b\n  b: [1, \"x\\q\"]\n\x7d" = .error ⟨⟨2, 12⟩, .badEscape⟩ := by
    decide +kernel
  have hplace := (parse_error_place herror).2.1 15 (by decide) ⟨by decide, by decide⟩
  exact ⟨herror, hplace⟩

end Document

end LeaderKey
