import LeaderKey.Proofs.Grammar.Tail.Phrase

/-!
# A line below changes nothing above

A text may go on with a new line and more text behind it. No reader looks past the new line for what
it has read already: a comment, a bare word and the blanks between tokens end there, and quotes and
braces have been closed before. So each reader gives what it gave, with the new line and the rest
behind what it left. `Reads.append_line` says this for phrases that have an end of their own; the
fields of a root object without braces end with the text, and go on below (`Reads.append_field`).
-/

namespace LeaderKey.Grammar

open LeaderKey.Text

variable (below : List Char)

/-! ## Gaps -/

/-- Whether a comment begins does not depend on the next line: a slash needs another one right
behind it. -/
theorem startsComment_append (c : Char) (s : List Char) :
    startsComment (c :: (s ++ '\n' :: below)) = startsComment (c :: s) := by
  rw [startsComment_cons, startsComment_cons]
  cases s with
  | nil => simp
  | cons d s => rfl

/-- A gap that runs to the end of the text, even inside a comment, goes on below. -/
theorem gap_append_of_nil {inComment : Bool} {s : List Char} (h : (gap inComment s).2 = []) :
    gap inComment (s ++ '\n' :: below) = (true, (gap false below).2) := by
  induction s generalizing inComment with
  | nil =>
    rw [List.nil_append, gap, if_pos rfl]
  | cons c rest ih =>
    rw [gap] at h
    rw [List.cons_append, gap, startsComment_append]
    split_ifs at h ⊢ with hline hinside hcomment
    · rw [ih h]
    · exact ih h
    · exact ih h

/-- The text after a gap that ends before the text does. -/
theorem afterGap_append {s : List Char} (h : afterGap s ≠ []) :
    afterGap (s ++ '\n' :: below) = afterGap s ++ '\n' :: below := by
  obtain ⟨g, hg⟩ := afterGap_suffix s
  have hover : afterGap (g ++ afterGap s) = afterGap s := by rw [hg]
  have hself : afterGap (afterGap s ++ []) = afterGap s ++ [] := by
    rw [List.append_nil, afterGap_afterGap]
  conv_lhs => rw [← hg, List.append_assoc, afterGap_replace hover h]
  exact afterGap_append_eq_self h hself nofun

/-- The text after a gap that runs to the end of the text. -/
theorem afterGap_append_of_nil {s : List Char} (h : afterGap s = []) :
    afterGap (s ++ '\n' :: below) = afterGap below := by
  unfold afterGap at h ⊢
  rw [gap_append_of_nil below h]

/-- Whether a gap that ends before the text does crosses a line. -/
theorem crossesLine_append {s : List Char} (h : afterGap s ≠ []) :
    crossesLine (s ++ '\n' :: below) = crossesLine s := by
  obtain ⟨g, hg⟩ := afterGap_suffix s
  have hover : afterGap (g ++ afterGap s) = afterGap s := by rw [hg]
  have hself : afterGap (afterGap s ++ []) = afterGap s ++ [] := by
    rw [List.append_nil, afterGap_afterGap]
  have hbelow : crossesLine (afterGap s ++ '\n' :: below) = false :=
    crossesLine_of_afterGap (afterGap_append_eq_self h hself nofun)
  conv_lhs => rw [← hg, List.append_assoc, crossesLine_replace hover h, hg, hbelow, Bool.or_false]

/-- A gap that runs to the end of the text crosses a line if there is one below. -/
theorem crossesLine_append_of_nil {s : List Char} (h : afterGap s = []) :
    crossesLine (s ++ '\n' :: below) = true := by
  unfold crossesLine
  rw [gap_append_of_nil below h]

/-! ## Tokens -/

/-- A bare word ends with its line. -/
theorem bareWord_append_line (s : List Char) :
    bareWord (s ++ '\n' :: below) = ((bareWord s).1, (bareWord s).2 ++ '\n' :: below) := by
  induction s with
  | nil =>
    exact bareWord_eq_nil (by decide) below
  | cons c rest ih =>
    rw [List.cons_append, bareWord, bareWord, startsComment_append, ih]
    split
    · rfl
    · rfl

/-- The blanks at the front of a line end with it. -/
theorem afterBlanks_append (s : List Char) :
    afterBlanks (s ++ '\n' :: below) = afterBlanks s ++ '\n' :: below := by
  unfold afterBlanks
  rw [List.dropWhile_append]
  split
  · rename_i hempty
    rw [List.isEmpty_iff.1 hempty]
    rfl
  · rfl

/-- Whether a token goes on behind blanks does not depend on the next line. -/
theorem ends_append_line (s : List Char) :
    token (afterBlanks (s ++ '\n' :: below)) = .ok none ↔ token (afterBlanks s) = .ok none := by
  rw [afterBlanks_append, token_eq_none_iff, token_eq_none_iff, bareWord_append_line]
  cases afterBlanks s with
  | nil => simp [bareWord]
  | cons c t => rfl

/-- A line below ends what the end of the text ends. -/
theorem endsLike_append_line (s : List Char) : EndsLike s (s ++ '\n' :: below) := by
  refine ⟨(ends_append_line below s).2, fun hslash => ?_⟩
  cases s with
  | nil => cases hslash
  | cons c t => exact hslash

/-! ## Phrases -/

/-- Where an element may stand before the end of the text, the gap before it ended. -/
theorem afterGap_ne_nil_of_nextElement {closing : Closing} {s next : List Char}
    (h : nextElement closing s = some next) (hnext : next ≠ []) : afterGap s ≠ [] := by
  intro hgap
  rw [nextElement_of_not_comma (by rw [hgap]; simp), hgap] at h
  split at h
  · cases h
    exact hnext rfl
  · cases h

/-- The place of the next element does not depend on the next line, unless the text ends there. -/
theorem nextElement_append {closing : Closing} {s next : List Char}
    (h : nextElement closing s = some next) (hnext : next ≠ []) :
    nextElement closing (s ++ '\n' :: below) = some (next ++ '\n' :: below) := by
  have hgap : afterGap s ≠ [] := afterGap_ne_nil_of_nextElement h hnext
  by_cases hcomma : (afterGap s).head? = some ','
  · obtain ⟨rest, hrest⟩ := List.head?_eq_some_iff.1 hcomma
    rw [nextElement_of_comma hrest, Option.some.injEq] at h
    subst h
    refine nextElement_of_comma ?_
    rw [afterGap_append below hgap, hrest, List.cons_append]
  · have hcomma' : (afterGap (s ++ '\n' :: below)).head? ≠ some ',' := by
      rw [afterGap_append below hgap, List.head?_append_of_ne_nil _ hgap]
      exact hcomma
    rw [nextElement_of_not_comma hcomma] at h
    rw [nextElement_of_not_comma hcomma', crossesLine_append below hgap,
      afterGap_append below hgap, reached_append hgap]
    split at h
    · rename_i hmay
      cases h
      rw [if_pos hmay]
    · cases h

/-- A field is not empty. -/
theorem Reads.ne_nil_of_field {f : Field} {s rest : List Char} (h : Reads (.field f) s rest) :
    s ≠ [] := by
  have hlt : rest.length < s.length := length_lt_of_field h.isRead
  exact List.ne_nil_of_length_pos (Nat.zero_lt_of_lt hlt)

/-- A phrase that ends by itself is read in the same way with a line below. -/
theorem Reads.append_line {p : Phrase} {s rest : List Char} (h : Reads p s rest) (hp : p.HasEnd) :
    Reads p (s ++ '\n' :: below) (rest ++ '\n' :: below) := by
  obtain ⟨a, rfl⟩ := h.suffix.1
  rw [List.append_assoc]
  exact h.replace hp rfl (endsLike_append_line below rest)

/-! ## One more field -/

/-- A field that begins with no comment begins with no gap either. -/
theorem afterGap_of_field {f : Field} {s rest : List Char}
    (h : Grammar.field s = .ok (f, rest)) (hcomment : ¬ ['/', '/'] <+: s) : afterGap s = s := by
  obtain ⟨_, _, hpath, _⟩ := field_eq_ok h
  obtain ⟨c, t, rfl, hc⟩ := head_of_keyPath hpath
  have hline : c ≠ '\n' := by
    simpa using head?_ne_of_keyPath hpath (d := '\n') (by decide) (by decide)
  have hhash : c ≠ '#' := by
    simpa using head?_ne_of_keyPath hpath (d := '#') (by decide) (by decide)
  have hblank : isInlineBlank c = false := by
    rcases hc with rfl | hc
    · decide
    · cases hinline : isInlineBlank c with
      | false => rfl
      | true =>
        have hbare := not_isBareChar_of_isBlank (isBlank_of_isInlineBlank hinline)
        rw [isBareChar_of_isKeyChar hc] at hbare
        cases hbare
  have hstarts : startsComment (c :: t) = false := by
    rw [startsComment_cons, beq_false_of_ne hhash, Bool.false_or]
    cases t with
    | nil => simp
    | cons d t =>
      have hslashes : ¬ (c = '/' ∧ d = '/') := by
        rintro ⟨rfl, rfl⟩
        exact hcomment ⟨t, rfl⟩
      simpa using hslashes
  unfold afterGap
  rw [gap, if_neg hline, Bool.false_or, hblank, if_neg (by decide), hstarts, if_neg (by decide)]

/-- Where the text ends after an element, with or without a comma, a line below without a gap at its
front is the next element. -/
theorem nextElement_append_of_nil {closing : Closing} {s line : List Char}
    (h : nextElement closing s = some []) (hgap : afterGap line = line)
    (hcomma : line.head? ≠ some ',') :
    ∃ next, nextElement closing (s ++ '\n' :: line) = some next ∧ afterGap next = line := by
  by_cases hs : (afterGap s).head? = some ','
  · -- The comma was the last thing above, and the new line is the gap before the next element.
    obtain ⟨rest, hrest⟩ := List.head?_eq_some_iff.1 hs
    have hne : afterGap s ≠ [] := by
      rw [hrest]
      exact List.cons_ne_nil _ _
    rw [nextElement_of_comma hrest, Option.some.injEq] at h
    subst h
    refine ⟨'\n' :: line, nextElement_of_comma ?_, hgap⟩
    rw [afterGap_append line hne, hrest, List.singleton_append]
  · -- Nothing was left above, and the new line separates the elements.
    refine ⟨line, ?_, hgap⟩
    have hend : afterGap s = [] := by
      rw [nextElement_of_not_comma hs] at h
      split at h
      · exact Option.some.inj h
      · cases h
    have hbelow : afterGap (s ++ '\n' :: line) = line := by
      rw [afterGap_append_of_nil line hend, hgap]
    rw [nextElement_of_not_comma (by rw [hbelow]; exact hcomma), hbelow,
      crossesLine_append_of_nil line hend, Bool.true_or, if_pos rfl]

/-- The fields of a root object without braces go on with one more field on a line of its own,
whatever the text above ends in. -/
theorem Reads.append_field {fs : List Field} {f : Field} {s after line : List Char}
    (h : Reads (.fields .endOfText fs) s after) (hline : Grammar.field line = .ok (f, []))
    (hcomment : ¬ ['/', '/'] <+: line) :
    Reads (.fields .endOfText (fs ++ [f])) (s ++ '\n' :: line) [] := by
  have hgapLine : afterGap line = line := afterGap_of_field hline hcomment
  have hcomma : line.head? ≠ some ',' := by
    obtain ⟨_, _, hpath, _⟩ := field_eq_ok hline
    exact head?_ne_of_keyPath hpath (by decide) (by decide)
  generalize hphrase : Phrase.fields .endOfText fs = p at h
  induction h generalizing fs with
  | @fieldsEnd closing s hreached =>
    cases hphrase
    -- Nothing is left above, and the line alone is one field.
    have hfield : Reads (.field f) (afterGap line) [] := by
      rw [hgapLine]
      exact reads_of_field hline
    have hlast : Reads (.fields .endOfText [f]) line [] := .fieldsCons hfield rfl (.fieldsEnd rfl)
    have hgap : afterGap s = [] := List.isEmpty_iff.1 hreached
    exact hlast.of_afterGap_eq (afterGap_append_of_nil line hgap).symm
  | @fieldsCons closing g gs s rest next after hfield hnext hfields _ ih =>
    cases hphrase
    have hgap : afterGap s ≠ [] := hfield.ne_nil_of_field
    have hfirst : Reads (.field g) (afterGap (s ++ '\n' :: line)) (rest ++ '\n' :: line) := by
      rw [afterGap_append line hgap]
      exact hfield.append_line line trivial
    have hmore : Reads (.fields .endOfText (gs ++ [f])) (next ++ '\n' :: line) [] := ih rfl
    by_cases hnil : next = []
    · -- The text above ends with this field, so the new line separates it from the next one.
      subst hnil
      obtain ⟨start, hstart, hgapStart⟩ := nextElement_append_of_nil hnext hgapLine hcomma
      refine .fieldsCons hfirst hstart (hmore.of_afterGap_eq ?_)
      rw [hgapStart]
      exact hgapLine
    · exact .fieldsCons hfirst (nextElement_append line hnext hnil) hmore
  | _ => cases hphrase

end LeaderKey.Grammar
