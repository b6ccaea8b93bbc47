import LeaderKey.Proofs.Grammar.Comments.Phrase

/-!
# Texts with line feeds alone at the ends of their lines

`lineFeeds` leaves the carriage returns at the ends of lines out of a text. The readers do not
notice: from the text without them they read the same, leave what they left without them, and fail
with the same problem in front of what they failed at without them. Only triple quotes keep the ends
of lines, so texts with triple quotes are left out from `token_lineFeeds` on.
-/

namespace LeaderKey.Grammar

open LeaderKey.Text

/-- The text with a line feed alone at the end of each line: a carriage return right before a line
feed is left out. -/
def lineFeeds : List Char → List Char
  | [] => []
  | c :: s => if c = '\r' ∧ s.head? = some '\n' then lineFeeds s else c :: lineFeeds s

/-! ## Character by character -/

/-- A character that is no carriage return stays. -/
theorem lineFeeds_cons {c : Char} (h : c ≠ '\r') (s : List Char) :
    lineFeeds (c :: s) = c :: lineFeeds s := by
  rw [lineFeeds, if_neg fun hend => h hend.1]

/-- A carriage return at the end of a line is left out. -/
theorem lineFeeds_return (s : List Char) :
    lineFeeds ('\r' :: '\n' :: s) = lineFeeds ('\n' :: s) := by
  rw [lineFeeds, if_pos ⟨rfl, rfl⟩]

/-- A character is the carriage return at the end of a line, or stays. -/
theorem lineFeeds_cons_cases (c : Char) (s : List Char) :
    (c = '\r' ∧ ∃ t, s = '\n' :: t) ∨ lineFeeds (c :: s) = c :: lineFeeds s := by
  by_cases hend : c = '\r' ∧ s.head? = some '\n'
  · exact Or.inl ⟨hend.1, List.head?_eq_some_iff.1 hend.2⟩
  · exact Or.inr (by rw [lineFeeds, if_neg hend])

/-- No character but a line feed comes to the front that was not there. -/
theorem lineFeeds_eq_cons {s r : List Char} {c : Char} (hline : c ≠ '\n')
    (h : lineFeeds s = c :: r) : ∃ t, s = c :: t ∧ r = lineFeeds t := by
  cases s with
  | nil => cases h
  | cons d s =>
    obtain ⟨rfl, t, rfl⟩ | hself := lineFeeds_cons_cases d s
    · rw [lineFeeds_return, lineFeeds_cons (by decide)] at h
      exact absurd (List.cons.inj h).1.symm hline
    · rw [hself] at h
      obtain ⟨rfl, rfl⟩ := List.cons.inj h
      exact ⟨s, rfl, rfl⟩

/-- A character that ends no line is at the front exactly if it was there. -/
theorem head?_lineFeeds {s : List Char} {c : Char} (hline : c ≠ '\n') (hreturn : c ≠ '\r') :
    (lineFeeds s).head? = some c ↔ s.head? = some c := by
  simp only [List.head?_eq_some_iff]
  constructor
  · rintro ⟨r, hr⟩
    obtain ⟨t, rfl, -⟩ := lineFeeds_eq_cons hline hr
    exact ⟨t, rfl⟩
  · rintro ⟨t, rfl⟩
    exact ⟨lineFeeds t, lineFeeds_cons hreturn t⟩

/-- Nothing is left exactly of nothing. -/
@[simp] theorem lineFeeds_eq_nil {s : List Char} : lineFeeds s = [] ↔ s = [] := by
  constructor
  · intro h
    cases s with
    | nil => rfl
    | cons c s =>
      obtain ⟨rfl, t, rfl⟩ | hself := lineFeeds_cons_cases c s
      · rw [lineFeeds_return, lineFeeds_cons (by decide)] at h
        cases h
      · rw [hself] at h
        cases h
  · rintro rfl
    rfl

/-- Characters that end no line are there exactly if they were there. -/
theorem lineFeeds_eq_append {w s r : List Char} (h : ∀ c ∈ w, c ≠ '\n' ∧ c ≠ '\r') :
    lineFeeds s = w ++ r ↔ ∃ t, s = w ++ t ∧ lineFeeds t = r := by
  induction w generalizing s with
  | nil =>
    refine ⟨fun hr => ⟨s, rfl, hr⟩, ?_⟩
    rintro ⟨t, rfl, hr⟩
    exact hr
  | cons c w ih =>
    rw [List.forall_mem_cons] at h
    constructor
    · intro hr
      obtain ⟨t, rfl, ht⟩ := lineFeeds_eq_cons h.1.1 hr
      obtain ⟨u, rfl, hu⟩ := (ih h.2).1 ht.symm
      exact ⟨u, rfl, hu⟩
    · rintro ⟨t, rfl, ht⟩
      rw [List.cons_append, lineFeeds_cons h.1.2, (ih h.2).2 ⟨t, rfl, ht⟩]
      rfl

/-- Where no line feed follows, a text can be cut. -/
theorem lineFeeds_append_cons {c : Char} (h : c ≠ '\n') (s t : List Char) :
    lineFeeds (s ++ c :: t) = lineFeeds s ++ lineFeeds (c :: t) := by
  induction s with
  | nil => rfl
  | cons d s ih =>
    have hhead : (s ++ c :: t).head? = some '\n' ↔ s.head? = some '\n' := by
      cases s with
      | nil => exact iff_of_false (fun hline => h (Option.some.inj hline)) nofun
      | cons e s => exact Iff.rfl
    rw [List.cons_append, lineFeeds, lineFeeds, ih]
    simp only [hhead]
    split <;> rfl

/-- A text has as many lines without the carriage returns. -/
theorem count_lineFeeds (s : List Char) : (lineFeeds s).count '\n' = s.count '\n' := by
  induction s with
  | nil => rfl
  | cons c s ih =>
    obtain ⟨rfl, t, rfl⟩ | hself := lineFeeds_cons_cases c s
    · rw [lineFeeds_return, ih]
      exact (List.count_cons_of_ne (by decide)).symm
    · rw [hself, List.count_cons, List.count_cons, ih]

/-- A comment begins in front of a text exactly if it did. -/
theorem startsComment_lineFeeds (c : Char) (s : List Char) :
    startsComment (c :: lineFeeds s) = startsComment (c :: s) := by
  have hslash : ((lineFeeds s).head? == some '/') = (s.head? == some '/') := by
    rw [Bool.eq_iff_iff, beq_iff_eq, beq_iff_eq]
    exact head?_lineFeeds (by decide) (by decide)
  rw [startsComment_cons, startsComment_cons, hslash]

/-- What is taken from the front of a text up to the end of a line at most. -/
theorem takeWhile_lineFeeds {p : Char → Bool} (hline : p '\n' = false) (hreturn : p '\r' = false)
    (s : List Char) :
    (lineFeeds s).takeWhile p = s.takeWhile p ∧
      (lineFeeds s).dropWhile p = lineFeeds (s.dropWhile p) := by
  induction s with
  | nil => exact ⟨rfl, rfl⟩
  | cons c s ih =>
    obtain ⟨rfl, t, rfl⟩ | hself := lineFeeds_cons_cases c s
    · -- What is taken ends at the carriage return, and without that at the line feed.
      rw [lineFeeds_return, List.takeWhile_cons_of_neg (by simp [hreturn]),
        List.dropWhile_cons_of_neg (by simp [hreturn]), lineFeeds_return,
        lineFeeds_cons (by decide), List.takeWhile_cons_of_neg (by simp [hline]),
        List.dropWhile_cons_of_neg (by simp [hline])]
      exact ⟨rfl, rfl⟩
    · rw [hself]
      cases hc : p c with
      | true =>
        rw [List.takeWhile_cons_of_pos hc, List.takeWhile_cons_of_pos hc,
          List.dropWhile_cons_of_pos hc, List.dropWhile_cons_of_pos hc, ih.1]
        exact ⟨rfl, ih.2⟩
      | false =>
        rw [List.takeWhile_cons_of_neg (by simp [hc]), List.takeWhile_cons_of_neg (by simp [hc]),
          List.dropWhile_cons_of_neg (by simp [hc]), List.dropWhile_cons_of_neg (by simp [hc]),
          hself]
        exact ⟨rfl, rfl⟩

/-! ## Gaps and blanks -/

/-- A gap crosses a line exactly if it did, and leaves what it left. -/
theorem gap_lineFeeds (inComment : Bool) (s : List Char) :
    gap inComment (lineFeeds s) =
      ((gap inComment s).1, lineFeeds (gap inComment s).2) := by
  induction s generalizing inComment with
  | nil => rfl
  | cons c s ih =>
    obtain ⟨rfl, t, rfl⟩ | hself := lineFeeds_cons_cases c s
    · -- A carriage return is a blank, or part of a comment.
      have hblank : gap inComment ('\r' :: '\n' :: t) = gap inComment ('\n' :: t) := by
        rw [gap, if_neg (by decide), if_pos (by rw [Bool.or_eq_true]; exact Or.inr (by decide))]
      rw [lineFeeds_return, hblank, ih]
    · rw [hself, gap, gap, startsComment_lineFeeds, ih, ih, ih]
      split_ifs
      · rfl
      · rfl
      · rfl
      · rw [hself]

/-- The text after a gap. -/
theorem afterGap_lineFeeds (s : List Char) : afterGap (lineFeeds s) = lineFeeds (afterGap s) :=
  congrArg Prod.snd (gap_lineFeeds false s)

/-- A gap crosses a line exactly if it did. -/
theorem crossesLine_lineFeeds (s : List Char) : crossesLine (lineFeeds s) = crossesLine s := by
  have hgap := congrArg Prod.fst (gap_lineFeeds false s)
  exact hgap

/-- The text after blanks. -/
theorem afterBlanks_lineFeeds (s : List Char) :
    afterBlanks (lineFeeds s) = lineFeeds (afterBlanks s) := by
  unfold afterBlanks
  induction s with
  | nil => rfl
  | cons c s ih =>
    obtain ⟨rfl, t, rfl⟩ | hself := lineFeeds_cons_cases c s
    · rw [lineFeeds_return, ih]
      rfl
    · rw [hself]
      cases hc : isInlineBlank c with
      | true => rw [List.dropWhile_cons_of_pos hc, List.dropWhile_cons_of_pos hc, ih]
      | false =>
        rw [List.dropWhile_cons_of_neg (by simp [hc]), List.dropWhile_cons_of_neg (by simp [hc]),
          hself]

/-- Blanks that do not go up to the end of the line are the blanks that were there. -/
theorem blanks_lineFeeds {s : List Char} (h : (afterBlanks s).head? ≠ some '\n') :
    (lineFeeds s).takeWhile isInlineBlank = s.takeWhile isInlineBlank := by
  unfold afterBlanks at h
  induction s with
  | nil => rfl
  | cons c s ih =>
    obtain ⟨rfl, t, rfl⟩ | hself := lineFeeds_cons_cases c s
    · exact absurd rfl h
    · rw [hself]
      cases hc : isInlineBlank c with
      | true =>
        rw [List.dropWhile_cons_of_pos hc] at h
        rw [List.takeWhile_cons_of_pos hc, List.takeWhile_cons_of_pos hc, ih h]
      | false =>
        rw [List.takeWhile_cons_of_neg (by simp [hc]), List.takeWhile_cons_of_neg (by simp [hc])]

/-! ## Results with another text left -/

/-- The fault with another text left of the one it is at. -/
def Fault.onRest (f : List Char → List Char) (fault : Fault) : Fault :=
  ⟨fault.problem, f fault.rest⟩

/-- The result with another text left of the one after it. -/
def Result.onRest {α : Type} (f : List Char → List Char) (r : Result α) : Result α :=
  (r.mapError (Fault.onRest f)).map (Prod.map id f)

/-- The attempt with another text left of the one after it. -/
def Attempt.onRest {α : Type} (f : List Char → List Char) (r : Attempt α) : Attempt α :=
  (r.mapError (Fault.onRest f)).map (Option.map (Prod.map id f))

variable {α β : Type} {f : List Char → List Char}

/-- What was read stays, and the text after it is the other one. -/
theorem Result.onRest_ok (a : α) (rest : List Char) :
    Result.onRest f (.ok (a, rest)) = .ok (a, f rest) := rfl

/-- What was read stays, and the text after it is the other one. -/
theorem Attempt.onRest_some (a : α) (rest : List Char) :
    Attempt.onRest f (.ok (some (a, rest))) = .ok (some (a, f rest)) := rfl

/-- What is made of a value does not depend on the text after it. -/
theorem Result.onRest_map (g : α → β) (r : Result α) :
    Result.onRest f (r.map fun (a, rest) => (g a, rest)) =
      (Result.onRest f r).map fun (a, rest) => (g a, rest) := by
  cases r <;> rfl

/-- What is made of a value does not depend on the text after it. -/
theorem Attempt.onRest_map (g : α → β) (r : Result α) :
    Attempt.onRest f (r.map fun (a, rest) => some (g a, rest)) =
      (Result.onRest f r).map fun (a, rest) => some (g a, rest) := by
  cases r <;> rfl

/-- One more character in front does not change the text after it. -/
theorem Result.onRest_cons (c : Char) (r : Result (List Char)) :
    (r.cons c).onRest f = (r.onRest f).cons c := by
  cases r <;> rfl

/-! ## Quoted texts -/

/-- An escape by number that is refused has no number. -/
theorem problem_of_escape_u {s : List Char} {problem : Problem}
    (h : escape ('u' :: s) = .error problem) : problem = .badUnicodeEscape := by
  unfold escape at h
  dsimp only at h
  rw [if_pos rfl] at h
  split at h
  · split at h
    · cases h
    · exact (Except.error.inj h).symm
  · exact (Except.error.inj h).symm

/-- The four places of an escape by number end no line. -/
theorem ne_lineEnd_of_escapedScalar? {a b c d x y : Char} (h : escapedScalar? a b c d = some x)
    (hy : y ∈ [a, b, c, d]) : y ≠ '\n' ∧ y ≠ '\r' := by
  have hdigit := plus_or_digit_of_escapedScalar? h hy
  constructor
  · rintro rfl
    exact absurd hdigit (by decide)
  · rintro rfl
    exact absurd hdigit (by decide)

/-- An escape by number is one exactly if it was one. -/
theorem escape_u_lineFeeds {s r : List Char} {x : Char} :
    escape ('u' :: lineFeeds s) = .ok (x, r) ↔
      ∃ t, escape ('u' :: s) = .ok (x, t) ∧ lineFeeds t = r := by
  simp only [escape_u_eq_ok]
  constructor
  · rintro ⟨a, b, c, d, hr, hscalar⟩
    obtain ⟨t, rfl, ht⟩ :=
      (lineFeeds_eq_append fun y hy => ne_lineEnd_of_escapedScalar? hscalar hy).1 hr
    exact ⟨t, ⟨a, b, c, d, rfl, hscalar⟩, ht⟩
  · rintro ⟨t, ⟨a, b, c, d, rfl, hscalar⟩, rfl⟩
    exact ⟨a, b, c, d,
      (lineFeeds_eq_append fun y hy => ne_lineEnd_of_escapedScalar? hscalar hy).2 ⟨t, rfl, rfl⟩,
      hscalar⟩

/-- An escape is what it was, right or wrong. -/
theorem escape_lineFeeds (s : List Char) :
    escape (lineFeeds s) = (escape s).map (Prod.map id lineFeeds) := by
  cases s with
  | nil => rfl
  | cons e s =>
    obtain ⟨rfl, t, rfl⟩ | hself := lineFeeds_cons_cases e s
    · rw [lineFeeds_return, lineFeeds_cons (by decide)]
      rfl
    · rw [hself]
      by_cases hu : e = 'u'
      · -- The four places are a number in both texts or in neither, and without one the problem is the
        -- same.
        subst hu
        cases h : escape ('u' :: s) with
        | ok p => exact escape_u_lineFeeds.2 ⟨p.2, h, rfl⟩
        | error problem =>
          cases h' : escape ('u' :: lineFeeds s) with
          | ok p =>
            obtain ⟨t, ht, -⟩ := escape_u_lineFeeds.1 h'
            rw [ht] at h
            cases h
          | error problem' =>
            rw [problem_of_escape_u h, problem_of_escape_u h']
            rfl
      · unfold escape
        dsimp only
        rw [if_neg hu, if_neg hu]
        cases escapedChar? e <;> rfl

/-- A quoted text is read as it was, and refused where it was. A carriage return at the end of its
line is a character of it, but it has no closing quote then. -/
theorem quotedBody_lineFeeds (s : List Char) :
    quotedBody (lineFeeds s) = (quotedBody s).onRest lineFeeds := by
  fun_induction quotedBody s with
  | case1 => rw [lineFeeds, quotedBody]; rfl
  | case2 rest =>
    rw [lineFeeds_cons (by decide), quotedBody, if_pos rfl]
    rfl
  | case3 rest =>
    rw [lineFeeds_cons (by decide), quotedBody, if_neg (by decide), if_pos rfl,
      ← lineFeeds_cons (by decide)]
    rfl
  | case4 rest scalar after he _ _ ih =>
    rw [lineFeeds_cons (by decide), quotedBody_backslash, escape_lineFeeds, he,
      Result.onRest_cons, ← ih]
    rfl
  | case5 rest problem he _ _ =>
    rw [lineFeeds_cons (by decide), quotedBody_backslash, escape_lineFeeds, he,
      ← lineFeeds_cons (by decide)]
    rfl
  | case6 c rest hquote hline hescape ih =>
    obtain ⟨rfl, t, rfl⟩ | hself := lineFeeds_cons_cases c rest
    · -- The carriage return is read as a character, but the fault is at the line feed behind it.
      rw [lineFeeds_return, ih, quotedBody, if_neg (by decide), if_pos rfl]
      rfl
    · rw [hself, quotedBody, if_neg hquote, if_neg hline, if_neg hescape, ih, Result.onRest_cons]

/-! ## Scalars -/

/-- A bare word is what it was. -/
theorem bareWord_lineFeeds (s : List Char) :
    bareWord (lineFeeds s) = ((bareWord s).1, lineFeeds (bareWord s).2) := by
  induction s with
  | nil => rfl
  | cons c s ih =>
    obtain ⟨rfl, t, rfl⟩ | hself := lineFeeds_cons_cases c s
    · -- No word holds a carriage return or a line feed.
      rw [bareWord_eq_nil (by decide), lineFeeds_return, lineFeeds_cons (by decide),
        bareWord_eq_nil (by decide)]
    · rw [hself, bareWord, bareWord, startsComment_lineFeeds, ih]
      split
      · rfl
      · rw [hself]

/-- No triple quote stands in a text. -/
def NoTripleQuote (s : List Char) : Prop := ¬ ['"', '"', '"'] <:+: s

/-- No triple quote stands in the rest of a text without one. -/
theorem NoTripleQuote.suffix {s t : List Char} (h : NoTripleQuote s) (ht : t <:+ s) :
    NoTripleQuote t :=
  fun hquotes => h (hquotes.trans ht.isInfix)

/-- The carriage returns at the ends of lines part no triple quote. -/
theorem NoTripleQuote.of_lineFeeds {s : List Char} (h : NoTripleQuote (lineFeeds s)) :
    NoTripleQuote s := by
  rintro ⟨before, behind, rfl⟩
  have hquotes : lineFeeds ('"' :: '"' :: '"' :: behind) =
      '"' :: '"' :: '"' :: lineFeeds behind := by
    rw [lineFeeds_cons (by decide), lineFeeds_cons (by decide), lineFeeds_cons (by decide)]
  refine h ⟨lineFeeds before, lineFeeds behind, ?_⟩
  rw [List.append_assoc, List.append_assoc]
  show lineFeeds before ++ _ = lineFeeds (before ++ '"' :: '"' :: '"' :: behind)
  rw [lineFeeds_append_cons (by decide), hquotes]
  rfl

/-- A quote does not begin a triple quote. -/
theorem NoTripleQuote.ne {s : List Char} (h : NoTripleQuote ('"' :: s)) (t : List Char) :
    s ≠ '"' :: '"' :: t := by
  rintro rfl
  exact h ⟨[], t, rfl⟩

/-- A token is read as it was, and refused where it was. -/
theorem token_lineFeeds {s : List Char} (h : NoTripleQuote s) :
    token (lineFeeds s) = (token s).onRest lineFeeds := by
  by_cases hquote : s.head? = some '"'
  · obtain ⟨t, rfl⟩ := List.head?_eq_some_iff.1 hquote
    -- Two quotes behind this one would have been there before.
    have hne : ∀ u, lineFeeds t ≠ '"' :: '"' :: u := by
      intro u hu
      obtain ⟨v, rfl, hv⟩ := lineFeeds_eq_cons (by decide) hu
      obtain ⟨w, rfl, -⟩ := lineFeeds_eq_cons (by decide) hv.symm
      exact h.ne w rfl
    rw [lineFeeds_cons (by decide), token.eq_2 _ hne, token.eq_2 _ h.ne, quotedBody_lineFeeds]
    cases quotedBody t <;> rfl
  · have hquote' : (lineFeeds s).head? ≠ some '"' :=
      mt (head?_lineFeeds (by decide) (by decide)).1 hquote
    rw [token_of_not_quote hquote, token_of_not_quote hquote', bareWord_lineFeeds]
    generalize bareWord s = w
    obtain ⟨word, after⟩ := w
    cases word <;> rfl

/-- Further tokens are read as they were, and refused where they were. -/
theorem moreTokens_lineFeeds {s : List Char} (h : NoTripleQuote s) :
    moreTokens (lineFeeds s) = (moreTokens s).onRest lineFeeds := by
  have htoken {s : List Char} (h : NoTripleQuote s) :
      token (afterBlanks (lineFeeds s)) = (token (afterBlanks s)).onRest lineFeeds := by
    rw [afterBlanks_lineFeeds, token_lineFeeds (h.suffix (afterBlanks_suffix s))]
  fun_induction moreTokens s with
  | case1 s fault ht =>
    rw [moreTokens_eq, htoken h, ht]
    rfl
  | case2 s ht =>
    rw [moreTokens_eq, htoken h, ht]
    rfl
  | case3 s t rest ht ih =>
    have hrest := h.suffix ((token_suffix ht).1.trans (afterBlanks_suffix s))
    -- The blanks end at a token, which no line feed begins.
    have hhead : (afterBlanks s).head? ≠ some '\n' := by
      intro hline
      obtain ⟨u, hu⟩ := List.head?_eq_some_iff.1 hline
      rw [hu, token_eq_none (by decide) (by decide)] at ht
      cases ht
    rw [moreTokens_eq, htoken h, ht, Result.onRest_map, ← ih hrest, ← blanks_lineFeeds hhead]
    rfl

/-- A scalar is read as it was, and refused where it was. -/
theorem scalar_lineFeeds {s : List Char} (h : NoTripleQuote s) :
    scalar (lineFeeds s) = (scalar s).onRest lineFeeds := by
  unfold scalar
  rw [token_lineFeeds h]
  cases ht : token s with
  | error fault => rfl
  | ok read =>
    cases read with
    | none => rfl
    | some p =>
      dsimp only
      rw [Attempt.onRest_map, ← moreTokens_lineFeeds (h.suffix (token_suffix ht).1)]
      rfl

/-! ## Key paths -/

/-- A key is read as it was, and refused where it was. -/
theorem key_lineFeeds (s : List Char) : key (lineFeeds s) = (key s).onRest lineFeeds := by
  by_cases hquote : s.head? = some '"'
  · obtain ⟨t, rfl⟩ := List.head?_eq_some_iff.1 hquote
    rw [lineFeeds_cons (by decide), key, key, quotedBody_lineFeeds]
    cases quotedBody t <;> rfl
  · have hquote' : (lineFeeds s).head? ≠ some '"' :=
      mt (head?_lineFeeds (by decide) (by decide)).1 hquote
    obtain ⟨htake, hdrop⟩ := takeWhile_lineFeeds (p := isKeyChar) (by decide) (by decide) s
    rw [key_of_not_quote hquote, key_of_not_quote hquote', htake, hdrop]
    cases s.takeWhile isKeyChar <;> rfl

/-- Further keys are read as they were, and refused where they were. -/
theorem moreKeys_lineFeeds (s : List Char) :
    moreKeys (lineFeeds s) = (moreKeys s).onRest lineFeeds := by
  fun_induction moreKeys s with
  | case1 s fault hk =>
    rw [lineFeeds_cons (by decide), moreKeys_dot, key_lineFeeds, hk]
    rfl
  | case2 s hk =>
    rw [lineFeeds_cons (by decide), moreKeys_dot, key_lineFeeds, hk,
      ← lineFeeds_cons (by decide)]
    rfl
  | case3 s name rest hk ih =>
    rw [lineFeeds_cons (by decide), moreKeys_dot, key_lineFeeds, hk, Result.onRest_map, ← ih]
    rfl
  | case4 s hdot =>
    have hhead : (lineFeeds s).head? ≠ some '.' := by
      rw [Ne, head?_lineFeeds (by decide) (by decide), List.head?_eq_some_iff]
      rintro ⟨t, rfl⟩
      exact hdot t rfl
    rw [moreKeys_of_not_dot hhead]
    rfl

/-- A key path is read as it was, and refused where it was. -/
theorem keyPath_lineFeeds (s : List Char) :
    keyPath (lineFeeds s) = (keyPath s).onRest lineFeeds := by
  unfold keyPath
  rw [key_lineFeeds]
  cases key s with
  | error fault => rfl
  | ok read =>
    cases read with
    | none => rfl
    | some p =>
      dsimp only
      rw [Attempt.onRest_map, ← moreKeys_lineFeeds]
      rfl

/-- What leads to a value leads to what it led to. -/
theorem fieldValue?_lineFeeds (s : List Char) :
    fieldValue? (lineFeeds s) = (fieldValue? s).map lineFeeds := by
  unfold fieldValue?
  rw [afterBlanks_lineFeeds]
  generalize afterBlanks s = u
  split
  · rename_i r hr
    obtain ⟨t, rfl, rfl⟩ := lineFeeds_eq_cons (by decide) hr
    exact congrArg some hr.symm
  · rename_i r hr
    obtain ⟨t, rfl, rfl⟩ := lineFeeds_eq_cons (by decide) hr
    exact congrArg some (afterBlanks_lineFeeds t)
  · rename_i r hr
    obtain ⟨t, rfl, rfl⟩ := lineFeeds_eq_cons (by decide) hr
    exact congrArg some (afterBlanks_lineFeeds t)
  · rename_i hbrace hcolon hequals
    split
    · exact absurd (lineFeeds_cons (by decide) _) (hbrace _)
    · exact absurd (lineFeeds_cons (by decide) _) (hcolon _)
    · exact absurd (lineFeeds_cons (by decide) _) (hequals _)
    · rfl

end LeaderKey.Grammar
