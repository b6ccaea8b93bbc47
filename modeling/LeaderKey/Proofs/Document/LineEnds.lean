import LeaderKey.Proofs.Document.FaultPlace
import LeaderKey.Proofs.Grammar.Keyed
import LeaderKey.Proofs.Grammar.LineEnds

/-!
# Line endings do not matter

A text may end its lines with carriage return and line feed, as editors on some systems have it,
or with line feeds alone. `Document.parse_withReturns` says that the two texts describe the same
object, or are both refused, on the same line and for the same reason. The columns may differ: a
line that is over when the problem is noticed has one more character. A triple quote would keep the
carriage returns, so there must be none in the text.
-/

namespace LeaderKey

namespace Grammar

/-! ## Closings, and what stands between elements -/

/-- A closing stands here exactly if it did. -/
theorem reached_lineFeeds (closing : Closing) (s : List Char) :
    closing.reached (lineFeeds s) = closing.reached s := by
  have hhead {d : Char} (hline : d ≠ '\n') (hreturn : d ≠ '\r') :
      ((lineFeeds s).head? == some d) = (s.head? == some d) := by
    rw [Bool.eq_iff_iff, beq_iff_eq, beq_iff_eq]
    exact head?_lineFeeds hline hreturn
  cases closing with
  | brace => exact hhead (by decide) (by decide)
  | bracket => exact hhead (by decide) (by decide)
  | endOfText =>
    rw [Closing.reached, Closing.reached, Bool.eq_iff_iff, List.isEmpty_iff, List.isEmpty_iff]
    exact lineFeeds_eq_nil

/-- The text behind a closing. -/
theorem skip_lineFeeds {closing : Closing} {s : List Char} (h : closing.reached s = true) :
    closing.skip (lineFeeds s) = lineFeeds (closing.skip s) := by
  obtain rfl | ⟨c, t, rfl, hc⟩ := reached_cases h
  · cases closing <;> rfl
  · have hreturn : c ≠ '\r' := by
      rintro rfl
      exact absurd hc (by decide)
    have hcons := lineFeeds_cons hreturn t
    cases closing with
    | brace => exact congrArg List.tail hcons
    | bracket => exact congrArg List.tail hcons
    | endOfText => rfl

/-- Nothing is left exactly if nothing was left. -/
theorem isEmpty_lineFeeds (s : List Char) : (lineFeeds s).isEmpty = s.isEmpty :=
  reached_lineFeeds .endOfText s

/-- What stands between two elements does so, with what was behind it. -/
theorem nextElement_lineFeeds (closing : Closing) (s : List Char) :
    nextElement closing (lineFeeds s) = (nextElement closing s).map lineFeeds := by
  by_cases hcomma : (afterGap s).head? = some ','
  · obtain ⟨t, ht⟩ := List.head?_eq_some_iff.1 hcomma
    have ht' : afterGap (lineFeeds s) = ',' :: lineFeeds t := by
      rw [afterGap_lineFeeds, ht, lineFeeds_cons (by decide)]
    rw [nextElement_of_comma ht, nextElement_of_comma ht']
    rfl
  · have hcomma' : (afterGap (lineFeeds s)).head? ≠ some ',' := by
      rw [afterGap_lineFeeds]
      exact mt (head?_lineFeeds (by decide) (by decide)).1 hcomma
    rw [nextElement_of_not_comma hcomma, nextElement_of_not_comma hcomma', crossesLine_lineFeeds,
      afterGap_lineFeeds, reached_lineFeeds]
    split <;> rfl

/-- One round of the loop over elements gives what it gave, if the element and the others are read as
they were. -/
theorem elements_lineFeeds {α : Type} {closing : Closing} {unclosed wrongEnd : Problem}
    {first : List Char → Result α} {more : List Char → Result (List α)} {s : List Char}
    (hfirst : first (lineFeeds (afterGap s)) = (first (afterGap s)).onRest lineFeeds)
    (hmore : ∀ x rest next, first (afterGap s) = .ok (x, rest) →
      nextElement closing rest = some next → more (lineFeeds next) = (more next).onRest lineFeeds) :
    elements closing unclosed wrongEnd first more (lineFeeds s) =
      (elements closing unclosed wrongEnd first more s).onRest lineFeeds := by
  unfold elements
  rw [afterGap_lineFeeds, reached_lineFeeds, isEmpty_lineFeeds]
  split_ifs with hreached hempty
  · rw [skip_lineFeeds hreached]
    rfl
  · rfl
  · rw [hfirst]
    rcases hread : first (afterGap s) with fault | ⟨x, rest⟩
    · rfl
    · -- The element ends where it did, so what follows it is what followed it.
      dsimp only [Result.onRest_ok]
      rw [nextElement_lineFeeds]
      cases hnext : nextElement closing rest with
      | none =>
        dsimp only [Option.map_none]
        rw [afterGap_lineFeeds]
        rfl
      | some next =>
        dsimp only [Option.map_some]
        rw [hmore x rest next hread hnext, Result.onRest_map fun xs => x :: xs]

/-! ## Phrases

The readers call each other on shorter texts, and so do the lemmas about them. -/

mutual

/-- A value is read as it was, and refused where it was. -/
theorem value_lineFeeds {s : List Char} (h : NoTripleQuote s) :
    value (lineFeeds s) = (value s).onRest lineFeeds := by
  by_cases hbrace : s.head? = some '{'
  · obtain ⟨t, ht⟩ := List.head?_eq_some_iff.1 hbrace
    have hlt : t.length < s.length := by rw [ht]; exact Nat.lt_succ_self _
    have hfields := fields_lineFeeds (h.suffix (ht ▸ List.suffix_cons '{' t)) .brace
    rw [ht, lineFeeds_cons (by decide), value_brace, value_brace, hfields,
      Result.onRest_map fun fs => Value.object (Object.ofFields fs)]
  · by_cases hbracket : s.head? = some '['
    · obtain ⟨t, ht⟩ := List.head?_eq_some_iff.1 hbracket
      have hlt : t.length < s.length := by rw [ht]; exact Nat.lt_succ_self _
      have hitems := items_lineFeeds (h.suffix (ht ▸ List.suffix_cons '[' t))
      rw [ht, lineFeeds_cons (by decide), value_bracket, value_bracket, hitems,
        Result.onRest_map fun vs => Value.list vs]
    · have hbrace' : (lineFeeds s).head? ≠ some '{' :=
        mt (head?_lineFeeds (by decide) (by decide)).1 hbrace
      have hbracket' : (lineFeeds s).head? ≠ some '[' :=
        mt (head?_lineFeeds (by decide) (by decide)).1 hbracket
      rw [value_of_scalar hbrace hbracket, value_of_scalar hbrace' hbracket', scalar_lineFeeds h]
      rcases scalar s with fault | _ | ⟨v, rest⟩ <;> rfl
termination_by 2 * s.length
decreasing_by all_goals omega

/-- A field is read as it was, and refused where it was. -/
theorem field_lineFeeds {s : List Char} (h : NoTripleQuote s) :
    field (lineFeeds s) = (field s).onRest lineFeeds := by
  rw [field_eq, field_eq, keyPath_lineFeeds]
  cases hpath : keyPath s with
  | error fault => rfl
  | ok read =>
    cases read with
    | none => rfl
    | some p =>
      obtain ⟨path, after⟩ := p
      dsimp only [Attempt.onRest_some]
      rw [fieldValue?_lineFeeds]
      cases hstart : fieldValue? after with
      | none =>
        dsimp only [Option.map_none, Option.map_some]
        rw [afterBlanks_lineFeeds]
        rfl
      | some start =>
        have hlt := (keyPath_suffix hpath).2
        have hle := (fieldValue?_suffix hstart).length_le
        have hvalue := value_lineFeeds
          (h.suffix ((fieldValue?_suffix hstart).trans (keyPath_suffix hpath).1))
        dsimp only [Option.map_none, Option.map_some]
        rw [hvalue, Result.onRest_map fun v => Field.mk path v]
termination_by 2 * s.length
decreasing_by omega

/-- Items are read as they were, and refused where they were. -/
theorem items_lineFeeds {s : List Char} (h : NoTripleQuote s) :
    items (lineFeeds s) = (items s).onRest lineFeeds := by
  have hgap := afterGap_length_le s
  rw [items_eq_elements, items_eq_elements]
  refine elements_lineFeeds (value_lineFeeds (h.suffix (afterGap_suffix s))) ?_
  intro v rest next hvalue hnext
  have hrest := length_lt_of_value hvalue
  have hle := (nextElement_suffix hnext).length_le
  exact items_lineFeeds (h.suffix ((nextElement_suffix hnext).trans
    ((reads_of_value hvalue).suffix.1.trans (afterGap_suffix s))))
termination_by 2 * s.length + 1
decreasing_by all_goals omega

/-- Fields are read as they were, and refused where they were. -/
theorem fields_lineFeeds {s : List Char} (h : NoTripleQuote s) (closing : Closing) :
    fields closing (lineFeeds s) = (fields closing s).onRest lineFeeds := by
  have hgap := afterGap_length_le s
  rw [fields_eq_elements, fields_eq_elements]
  refine elements_lineFeeds (field_lineFeeds (h.suffix (afterGap_suffix s))) ?_
  intro f rest next hfield hnext
  have hrest := length_lt_of_field hfield
  have hle := (nextElement_suffix hnext).length_le
  exact fields_lineFeeds (h.suffix ((nextElement_suffix hnext).trans
    ((reads_of_field hfield).suffix.1.trans (afterGap_suffix s)))) closing
termination_by 2 * s.length + 1
decreasing_by all_goals omega

end

/-- A whole text is read as it was, and refused where it was. -/
theorem document_lineFeeds {s : List Char} (h : NoTripleQuote s) :
    document (lineFeeds s) = (document s).mapError (Fault.onRest lineFeeds) := by
  by_cases hbrace : (afterGap s).head? = some '{'
  · obtain ⟨t, ht⟩ := List.head?_eq_some_iff.1 hbrace
    have hfields := fields_lineFeeds
      (h.suffix ((List.suffix_cons '{' t).trans (ht ▸ afterGap_suffix s))) .brace
    have ht' : afterGap (lineFeeds s) = '{' :: lineFeeds t := by
      rw [afterGap_lineFeeds, ht, lineFeeds_cons (by decide)]
    rw [document_eq_of_brace ht, document_eq_of_brace ht', hfields]
    rcases fields .brace t with fault | ⟨fs, after⟩
    · rfl
    · dsimp only [Result.onRest_ok]
      rw [afterGap_lineFeeds, isEmpty_lineFeeds]
      split <;> rfl
  · have hbrace' : (afterGap (lineFeeds s)).head? ≠ some '{' := by
      rw [afterGap_lineFeeds]
      exact mt (head?_lineFeeds (by decide) (by decide)).1 hbrace
    rw [document_of_not_brace hbrace, document_of_not_brace hbrace', fields_lineFeeds h]
    cases fields .endOfText s <;> rfl

/-- The line of a fault, counted from the line feeds in front of it. -/
theorem Position.line_ofRest {good rest : List Char} :
    (Position.ofRest (good ++ rest) rest).line = 1 + good.count '\n' := by
  rw [Position.ofRest, List.length_append, Nat.add_sub_cancel, List.take_left, Position.after_eq]

/-- A fault is on the line it was on. -/
theorem line_lineFeeds {s : List Char} {fault fault' : Fault}
    (h : document (lineFeeds s) = .error fault) (h' : document s = .error fault')
    (hrest : fault.rest = lineFeeds fault'.rest) :
    (Position.ofRest s fault'.rest).line = (Position.ofRest (lineFeeds s) fault.rest).line := by
  obtain ⟨good, _, _, hgood, _⟩ := document_mends h
  obtain ⟨good', _, _, hgood', _⟩ := document_mends h'
  have hline : (Position.ofRest (lineFeeds s) fault.rest).line = 1 + good.count '\n' := by
    rw [hgood, Position.line_ofRest]
  have hline' : (Position.ofRest s fault'.rest).line = 1 + good'.count '\n' := by
    rw [hgood', Position.line_ofRest]
  -- Both texts have as many lines, and so have the texts from the fault on.
  have hall := count_lineFeeds s
  have hleft := count_lineFeeds fault'.rest
  rw [hgood, List.count_append, hgood', List.count_append, hrest, hleft] at hall
  omega

end Grammar

open Grammar

namespace Document

/-- The text with a carriage return before each line feed. -/
def withReturns (text : String) : String :=
  String.ofList (text.toList.flatMap fun c => if c = '\n' then ['\r', '\n'] else [c])

/-- Without the carriage returns it is the text again. -/
theorem lineFeeds_withReturns {text : String} (h : '\r' ∉ text.toList) :
    lineFeeds (withReturns text).toList = text.toList := by
  rw [withReturns, String.toList_ofList]
  generalize text.toList = s at h ⊢
  induction s with
  | nil => rfl
  | cons c s ih =>
    rw [List.mem_cons, not_or] at h
    rw [List.flatMap_cons]
    split
    · rename_i hline
      rw [List.cons_append, List.cons_append, List.nil_append, lineFeeds_return,
        lineFeeds_cons (by decide), ih h.2, hline]
    · rw [List.cons_append, List.nil_append, lineFeeds_cons (Ne.symm h.1), ih h.2]

/-- Line endings do not matter: with a carriage return before each line feed, a text that has no
carriage return and no triple quote describes the object that it describes, and if it is refused,
then on the same line and with the same wording. -/
theorem parse_withReturns {text : String} (hreturn : '\r' ∉ text.toList)
    (hquotes : ¬ ['"', '"', '"'] <:+: text.toList) :
    (∀ d, parse (withReturns text) = .ok d ↔ parse text = .ok d) ∧
      ∀ e, parse text = .error e → ∃ e', parse (withReturns text) = .error e' ∧
        e'.position.line = e.position.line ∧ e'.problem.message = e.problem.message := by
  have hback := lineFeeds_withReturns hreturn
  -- The text is the other one without its carriage returns, so what the readers do not notice is what
  -- was put in.
  have hread : document text.toList = _ :=
    hback ▸ document_lineFeeds (NoTripleQuote.of_lineFeeds (hback.symm ▸ hquotes))
  constructor
  · intro d
    rw [parse_eq_ok_iff, parse_eq_ok_iff, hread]
    cases document (withReturns text).toList with
    | ok fs => exact Iff.rfl
    | error fault => simp [Except.mapError]
  · intro e he
    obtain ⟨fault, hfault, rfl⟩ := parse_eq_error he
    cases hreturns : document (withReturns text).toList with
    | ok fs =>
      rw [hread, hreturns] at hfault
      cases hfault
    | error fault' =>
      have heq : fault = fault'.onRest lineFeeds := by
        rw [hread, hreturns] at hfault
        exact (Except.error.inj hfault).symm
      refine ⟨⟨.ofRest (withReturns text).toList fault'.rest, fault'.problem⟩, ?_, ?_, by
        rw [heq]
        rfl⟩
      · unfold parse
        rw [hreturns]
      · have hline := line_lineFeeds (hback.symm ▸ hfault) hreturns (by rw [heq]; rfl)
        rwa [hback] at hline

/-- A group with a comment behind its brace and a list over two lines; and a quote that is broken by
the end of its line, where the carriage return takes the fault one column further. -/
theorem parse_withReturns_brokenQuote :
    parse (withReturns "a \x7b # one\n  b: [x y \n 2]\n\x7d\nc=\"\"\n") =
        .ok ⟨[("a", .object [("b", .list [.string "x y", .number "2"])]), ("c", .string "")]⟩ ∧
      parse "a: [x,\n  \"y\nz\"]" = .error ⟨⟨2, 5⟩, .unterminatedQuote⟩ ∧
      parse (withReturns "a: [x,\n  \"y\nz\"]") = .error ⟨⟨2, 6⟩, .unterminatedQuote⟩ ∧
      ∃ e, parse (withReturns "a: [x,\n  \"y\nz\"]") = .error e ∧ e.position.line = 2 ∧
        e.problem.message = "unterminated quoted string" := by
  have hgroup : parse "a \x7b # one\n  b: [x y \n 2]\n\x7d\nc=\"\"\n" =
      .ok ⟨[("a", .object [("b", .list [.string "x y", .number "2"])]), ("c", .string "")]⟩ := by
    decide +kernel
  have hbroken : parse "a: [x,\n  \"y\nz\"]" = .error ⟨⟨2, 5⟩, .unterminatedQuote⟩ := by
    decide +kernel
  exact ⟨((parse_withReturns (by decide +kernel) (by decide +kernel)).1 _).2 hgroup, hbroken,
    by decide +kernel, (parse_withReturns (by decide +kernel) (by decide +kernel)).2 _ hbroken⟩

end Document

end LeaderKey
