import LeaderKey.Proofs.Grammar.Tail.Token

/-!
# Texts without their comments

`strip` takes the comments out of a text: outside of quotes, what stands from a comment mark to the
end of the line. It scans the text once, from left to right, and knows nothing of the grammar. The
readers up to scalars agree with it on what a comment is: `gap_strip`, `token_strip` and
`scalar_strip` say that they read the same from the text without comments, and leave what they left
without its comments, also where they find nothing or fail.
-/

namespace LeaderKey.Grammar

open LeaderKey.Text

/-- What surrounds a place in a text. -/
inductive Context where
  /-- Neither quotes nor a comment. -/
  | plain
  /-- The quotes of a text. -/
  | quoted
  /-- The triple quotes of a text. -/
  | triple
  /-- A comment. -/
  | comment
  deriving DecidableEq, Repr

/-- The text that is left of `s`, which begins in a context, when the comments are taken out. The
new line behind a comment stays. -/
@[simp] def strip : Context → List Char → List Char
  | _, [] => []
  | .plain, '"' :: '"' :: '"' :: rest => '"' :: '"' :: '"' :: strip .triple rest
  | .plain, c :: rest =>
    if startsComment (c :: rest) then strip .comment rest
    else c :: strip (if c = '"' then .quoted else .plain) rest
  | .quoted, '\\' :: c :: rest => '\\' :: c :: strip .quoted rest
  | .quoted, c :: rest => c :: strip (if c = '"' then .plain else .quoted) rest
  | .triple, '"' :: '"' :: '"' :: rest => '"' :: '"' :: '"' :: strip .plain rest
  | .triple, c :: rest => c :: strip .triple rest
  | .comment, c :: rest => if c = '\n' then c :: strip .plain rest else strip .comment rest

/-! ## The scan, character by character -/

/-- Outside of quotes, a character other than a quote stays unless a comment begins with it. -/
theorem strip_cons {c : Char} (hquote : c ≠ '"') (rest : List Char) :
    strip .plain (c :: rest) =
      if startsComment (c :: rest) then strip .comment rest else c :: strip .plain rest := by
  rw [strip.eq_3, if_neg hquote]
  rintro t rfl
  exact absurd rfl hquote

/-- Triple quotes open a triple-quoted text. -/
theorem strip_tripleQuote (rest : List Char) :
    strip .plain ('"' :: '"' :: '"' :: rest) = '"' :: '"' :: '"' :: strip .triple rest := rfl

/-- A quote that is no triple quote opens a quoted text. -/
theorem strip_quote {rest : List Char} (h : ∀ t, rest ≠ '"' :: '"' :: t) :
    strip .plain ('"' :: rest) = '"' :: strip .quoted rest := by
  rw [strip.eq_3]
  · rfl
  · rintro t - rfl
    exact h t rfl

/-- A comment goes up to its line's end. -/
theorem strip_of_startsComment {c : Char} {rest : List Char}
    (h : startsComment (c :: rest) = true) : strip .plain (c :: rest) = strip .comment rest := by
  have hquote : c ≠ '"' := by
    rintro rfl
    cases h
  rw [strip_cons hquote, if_pos h]

/-- A character that is part of no quotes and no comment mark stays. -/
theorem strip_solid {c : Char} (hquote : c ≠ '"') (hhash : c ≠ '#') (hslash : c ≠ '/')
    (rest : List Char) : strip .plain (c :: rest) = c :: strip .plain rest := by
  have hcomment : startsComment (c :: rest) = false := by
    rw [startsComment_cons, beq_eq_false_iff_ne.2 hhash, beq_eq_false_iff_ne.2 hslash]
    rfl
  rw [strip_cons hquote, hcomment, if_neg Bool.false_ne_true]

/-- A blank stays. -/
theorem strip_blank {c : Char} (h : isInlineBlank c = true) (rest : List Char) :
    strip .plain (c :: rest) = c :: strip .plain rest := by
  refine strip_solid ?_ ?_ ?_ rest
  · rintro rfl
    cases h
  · rintro rfl
    cases h
  · rintro rfl
    cases h

/-- Only the new line behind a comment can follow it. -/
theorem head?_strip_comment {s : List Char} {c : Char}
    (h : (strip .comment s).head? = some c) : c = '\n' := by
  induction s with
  | nil => cases h
  | cons d rest ih =>
    rw [strip] at h
    split_ifs at h with hline
    · rw [← hline]
      exact (Option.some.inj h).symm
    · exact ih h

/-- A quote stays. -/
theorem head?_strip_quote (rest : List Char) :
    (strip .plain ('"' :: rest)).head? = some '"' := by
  by_cases htriple : ∃ t, rest = '"' :: '"' :: t
  · obtain ⟨t, rfl⟩ := htriple
    rfl
  · rw [strip_quote fun t ht => htriple ⟨t, ht⟩]
    rfl

/-- Where no comment begins, the first character stays. -/
theorem head?_strip {s : List Char} (h : startsComment s = false) :
    (strip .plain s).head? = s.head? := by
  cases s with
  | nil => rfl
  | cons c rest =>
    by_cases hquote : c = '"'
    · rw [hquote]
      exact head?_strip_quote rest
    · rw [strip_cons hquote, h, if_neg Bool.false_ne_true]
      rfl

/-- No character but a new line comes to the front that was not there. -/
theorem head?_strip_eq_some {s : List Char} {c : Char} (hline : c ≠ '\n') :
    (strip .plain s).head? = some c ↔ s.head? = some c ∧ startsComment s = false := by
  cases hcomment : startsComment s with
  | false => rw [head?_strip hcomment, and_iff_left rfl]
  | true =>
    obtain ⟨d, t, rfl⟩ : ∃ d t, s = d :: t := by
      cases s with
      | nil => cases hcomment
      | cons d t => exact ⟨d, t, rfl⟩
    rw [strip_of_startsComment hcomment]
    exact iff_of_false (fun h => hline (head?_strip_comment h)) nofun

/-- A character that opens no quotes comes to the front with what was behind it. -/
theorem strip_eq_cons {s r : List Char} {c : Char} (hquote : c ≠ '"') (hline : c ≠ '\n')
    (h : strip .plain s = c :: r) : ∃ t, s = c :: t ∧ r = strip .plain t := by
  have hhead : (strip .plain s).head? = some c := by rw [h]; rfl
  obtain ⟨hs, hcomment⟩ := (head?_strip_eq_some hline).1 hhead
  obtain ⟨t, rfl⟩ := List.head?_eq_some_iff.1 hs
  rw [strip_cons hquote, hcomment, if_neg Bool.false_ne_true] at h
  exact ⟨t, rfl, (List.cons.inj h).2.symm⟩

/-- No comment begins at the front. -/
@[simp] theorem startsComment_strip (s : List Char) : startsComment (strip .plain s) = false := by
  cases hstart : startsComment (strip .plain s) with
  | false => rfl
  | true =>
    generalize hr : strip .plain s = r at hstart
    cases r with
    | nil => cases hstart
    | cons c r =>
      rw [startsComment_cons, Bool.or_eq_true, Bool.and_eq_true, beq_iff_eq, beq_iff_eq,
        beq_iff_eq] at hstart
      rcases hstart with rfl | ⟨rfl, hslash⟩
      · have hhead : (strip .plain s).head? = some '#' := by rw [hr]; rfl
        obtain ⟨hs, hcomment⟩ := (head?_strip_eq_some (by decide)).1 hhead
        obtain ⟨t, rfl⟩ := List.head?_eq_some_iff.1 hs
        cases hcomment
      · -- Two slashes at the front were at the front before, so they began a comment.
        have hhead : (strip .plain s).head? = some '/' := by rw [hr]; rfl
        obtain ⟨-, hcomment⟩ := (head?_strip_eq_some (by decide)).1 hhead
        obtain ⟨t, rfl, rfl⟩ := strip_eq_cons (by decide) (by decide) hr
        have hsecond := ((head?_strip_eq_some (by decide)).1 hslash).1
        rw [startsComment_cons, hsecond] at hcomment
        cases hcomment

/-- A class of characters that is not at the front, or only where a comment begins, does not come to
the front. -/
theorem not_of_head?_strip {p : Char → Bool} (hline : p '\n' = false) {s : List Char}
    (hs : ∀ c, s.head? = some c → p c = true → startsComment s = true) :
    ∀ d, (strip .plain s).head? = some d → p d = false := by
  intro d hd
  by_cases hnewline : d = '\n'
  · rw [hnewline, hline]
  · obtain ⟨hhead, hcomment⟩ := (head?_strip_eq_some hnewline).1 hd
    cases hp : p d with
    | false => rfl
    | true =>
      rw [hs d hhead hp] at hcomment
      cases hcomment

/-- No prefix satisfies what the first character does not. -/
theorem takeWhile_of_head? {p : Char → Bool} {s : List Char}
    (h : ∀ d, s.head? = some d → p d = false) : s.takeWhile p = [] ∧ s.dropWhile p = s := by
  cases s with
  | nil => exact ⟨rfl, rfl⟩
  | cons d s =>
    have hd : ¬ p d = true := by
      rw [h d rfl]
      exact Bool.false_ne_true
    exact ⟨List.takeWhile_cons_of_neg hd, List.dropWhile_cons_of_neg hd⟩

/-- Without comments, no prefix satisfies what the first character did not. -/
theorem takeWhile_strip_of_neg {p : Char → Bool} (hline : p '\n' = false) {c : Char}
    (hc : p c = false) (rest : List Char) :
    (strip .plain (c :: rest)).takeWhile p = [] ∧
      (strip .plain (c :: rest)).dropWhile p = strip .plain (c :: rest) := by
  refine takeWhile_of_head? (not_of_head?_strip hline fun d hd hp => ?_)
  rw [← Option.some.inj hd, hc] at hp
  cases hp

/-! ## Gaps and blanks -/

/-- A gap crosses a line exactly if it did with its comments, and leaves what it left. -/
theorem gap_strip (inComment : Bool) (s : List Char) :
    gap false (strip (if inComment then .comment else .plain) s) =
      ((gap inComment s).1, strip .plain (gap inComment s).2) := by
  -- A comment begins and ends inside the gap, so the induction is for both contexts.
  induction s generalizing inComment with
  | nil => cases inComment <;> rfl
  | cons c rest ih =>
    have hplain := ih false
    have hinside := ih true
    rw [if_neg Bool.false_ne_true] at hplain
    rw [if_pos rfl] at hinside
    rw [gap]
    by_cases hline : c = '\n'
    · subst hline
      have hstrip : strip (if inComment then .comment else .plain) ('\n' :: rest) =
          '\n' :: strip .plain rest := by
        cases inComment <;> rfl
      rw [hstrip, gap, if_pos rfl, if_pos rfl, hplain]
    · rw [if_neg hline]
      cases inComment with
      | true => rw [Bool.true_or, if_pos rfl, if_pos rfl, strip, if_neg hline, hinside]
      | false =>
        rw [Bool.false_or, if_neg Bool.false_ne_true]
        cases hblank : isInlineBlank c with
        | true =>
          rw [if_pos rfl, strip_blank hblank, gap, if_neg hline, Bool.false_or, if_pos hblank,
            hplain]
        | false =>
          rw [if_neg Bool.false_ne_true]
          cases hcomment : startsComment (c :: rest) with
          | true => rw [if_pos rfl, strip_of_startsComment hcomment, hinside]
          | false =>
            -- The gap ends here, and without comments it ends before the same character.
            rw [if_neg Bool.false_ne_true]
            have hstart := startsComment_strip (c :: rest)
            obtain ⟨t, ht⟩ := List.head?_eq_some_iff.1 (head?_strip hcomment)
            rw [ht] at hstart ⊢
            rw [gap, if_neg hline, Bool.false_or, hblank, if_neg Bool.false_ne_true, hstart,
              if_neg Bool.false_ne_true]

/-- The text after a gap. -/
theorem afterGap_strip (s : List Char) : afterGap (strip .plain s) = strip .plain (afterGap s) :=
  congrArg Prod.snd (gap_strip false s)

/-- A gap crosses a line exactly if it did with its comments. -/
theorem crossesLine_strip (s : List Char) : crossesLine (strip .plain s) = crossesLine s := by
  have hgap := congrArg Prod.fst (gap_strip false s)
  exact hgap

/-- The blanks at the front stay, and the text after them is what it was. -/
theorem blanks_strip (s : List Char) :
    (strip .plain s).takeWhile isInlineBlank = s.takeWhile isInlineBlank ∧
      afterBlanks (strip .plain s) = strip .plain (afterBlanks s) := by
  induction s with
  | nil => exact ⟨rfl, rfl⟩
  | cons c rest ih =>
    cases hblank : isInlineBlank c with
    | true =>
      rw [strip_blank hblank, List.takeWhile_cons_of_pos hblank,
        List.takeWhile_cons_of_pos hblank, ih.1, afterBlanks, afterBlanks,
        List.dropWhile_cons_of_pos hblank, List.dropWhile_cons_of_pos hblank]
      exact ⟨rfl, ih.2⟩
    | false =>
      obtain ⟨htake, hdrop⟩ := takeWhile_strip_of_neg isInlineBlank_newline hblank rest
      rw [htake, afterBlanks, afterBlanks, hdrop, List.takeWhile_cons_of_neg (by simp [hblank]),
        List.dropWhile_cons_of_neg (by simp [hblank])]
      exact ⟨rfl, rfl⟩

/-! ## Results without their faults

A fault holds the text where reading stopped, which is another one without comments. The readers
are compared by what they give if nothing fails. -/

/-- What there is if nothing failed. -/
theorem toOption_eq_some {ε α : Type} {e : Except ε α} {a : α} :
    e.toOption = some a ↔ e = .ok a := by
  cases e with
  | error fault => exact iff_of_false nofun nofun
  | ok b => rw [Except.toOption, Option.some.injEq, Except.ok.injEq]

/-- There is nothing exactly if something failed. -/
theorem toOption_eq_none {ε α : Type} {e : Except ε α} :
    e.toOption = none ↔ ∃ fault, e = .error fault := by
  cases e with
  | error fault => exact iff_of_true rfl ⟨fault, rfl⟩
  | ok a => exact iff_of_false nofun nofun

/-- What there is of a mapped result. -/
theorem toOption_map {ε α β : Type} (f : α → β) (e : Except ε α) :
    (e.map f).toOption = e.toOption.map f := by
  cases e <;> rfl

/-- What was read with one more character in front, if nothing failed. -/
theorem toOption_cons (c : Char) (r : Result (List Char)) :
    (r.cons c).toOption = r.toOption.map (Prod.map (c :: ·) id) := by
  cases r <;> rfl

/-! ## Quoted texts -/

/-- A character of a quoted text that neither ends it nor begins an escape stays. -/
theorem strip_quoted_cons {c : Char} (hquote : c ≠ '"') (hescape : c ≠ '\\') (rest : List Char) :
    strip .quoted (c :: rest) = c :: strip .quoted rest := by
  rw [strip.eq_5, if_neg hquote]
  rintro d t rfl
  exact absurd rfl hescape

/-- The closing quote of a quoted text stays. -/
theorem strip_quoted_quote (rest : List Char) :
    strip .quoted ('"' :: rest) = '"' :: strip .plain rest := by
  rw [strip.eq_5, if_pos rfl]
  rintro d t heq
  exact absurd heq (by decide)

/-- In a quoted text, a backslash and the character behind it stay, whatever that is. -/
theorem strip_quoted_escape (e : Char) (rest : List Char) :
    strip .quoted ('\\' :: e :: rest) = '\\' :: e :: strip .quoted rest := rfl

/-- In a quoted text the first character stays. -/
theorem head?_strip_quoted (s : List Char) : (strip .quoted s).head? = s.head? := by
  match s with
  | [] => rfl
  | ['\\'] => rfl
  | '\\' :: c :: rest => rfl
  | c :: rest =>
    by_cases hescape : c = '\\'
    · subst hescape
      cases rest <;> rfl
    · rw [strip.eq_5]
      · rfl
      · rintro d t rfl
        exact absurd rfl hescape

/-- Characters of a quoted text that neither end it nor begin an escape are there exactly if they were
there. -/
theorem strip_quoted_eq_append {cs s r : List Char} (h : ∀ c ∈ cs, c ≠ '"' ∧ c ≠ '\\') :
    strip .quoted s = cs ++ r ↔ ∃ t, s = cs ++ t ∧ strip .quoted t = r := by
  induction cs generalizing s with
  | nil =>
    refine ⟨fun hr => ⟨s, rfl, hr⟩, ?_⟩
    rintro ⟨t, rfl, hr⟩
    exact hr
  | cons c cs ih =>
    rw [List.forall_mem_cons] at h
    obtain ⟨⟨hquote, hescape⟩, hcs⟩ := h
    constructor
    · intro hr
      have hhead : s.head? = some c := by
        rw [← head?_strip_quoted, hr]
        rfl
      obtain ⟨t, rfl⟩ := List.head?_eq_some_iff.1 hhead
      rw [strip_quoted_cons hquote hescape, List.cons_append] at hr
      obtain ⟨u, rfl, hu⟩ := (ih hcs).1 (List.cons.inj hr).2
      exact ⟨u, rfl, hu⟩
    · rintro ⟨t, rfl, hr⟩
      rw [List.cons_append, strip_quoted_cons hquote hescape, (ih hcs).2 ⟨t, rfl, hr⟩]
      rfl

/-- Every place of a hexadecimal number has a digit. -/
theorem isSome_hexDigit? {ds : List Char} {m n : Nat}
    (h : ds.foldlM (fun n d => (hexDigit? d).map (16 * n + ·)) m = some n) :
    ∀ d ∈ ds, (hexDigit? d).isSome = true := by
  induction ds generalizing m with
  | nil => nofun
  | cons d ds ih =>
    rw [List.foldlM_cons] at h
    obtain ⟨k, hk, hds⟩ := Option.bind_eq_some_iff.1 h
    obtain ⟨digit, hdigit, -⟩ := Option.map_eq_some_iff.1 hk
    rw [List.forall_mem_cons, hdigit]
    exact ⟨rfl, ih hds⟩

/-- The four places of an escape by number hold digits, or a plus sign. -/
theorem plus_or_digit_of_escapedScalar? {a b c d x y : Char}
    (h : escapedScalar? a b c d = some x) (hy : y ∈ [a, b, c, d]) :
    y = '+' ∨ (hexDigit? y).isSome = true := by
  obtain ⟨n, hn, -⟩ := Option.bind_eq_some_iff.1 h
  split_ifs at hn with hplus
  · rcases List.mem_cons.1 hy with rfl | hy
    · exact Or.inl hplus
    · exact Or.inr (isSome_hexDigit? hn y hy)
  · exact Or.inr (isSome_hexDigit? hn y hy)

/-- The four places of an escape by number hold no quote and no backslash. -/
theorem ne_of_escapedScalar? {a b c d x y : Char} (h : escapedScalar? a b c d = some x)
    (hy : y ∈ [a, b, c, d]) : y ≠ '"' ∧ y ≠ '\\' := by
  have hdigit := plus_or_digit_of_escapedScalar? h hy
  constructor
  · rintro rfl
    exact absurd hdigit (by decide)
  · rintro rfl
    exact absurd hdigit (by decide)

/-- An escape is read as it was with the comments behind its quoted text. -/
theorem escape_strip (e : Char) (rest : List Char) :
    (escape (e :: strip .quoted rest)).toOption =
      (escape (e :: rest)).toOption.map (Prod.map id (strip .quoted)) := by
  by_cases hu : e = 'u'
  · -- The four places of a number are the same in both texts.
    subst hu
    ext ⟨x, r⟩
    rw [toOption_eq_some, escape_u_eq_ok, Option.map_eq_some_iff]
    constructor
    · rintro ⟨a, b, c, d, hr, hscalar⟩
      obtain ⟨t, rfl, rfl⟩ :=
        (strip_quoted_eq_append fun y hy => ne_of_escapedScalar? hscalar hy).1 hr
      exact ⟨(x, t), toOption_eq_some.2 (escape_u_eq_ok.2 ⟨a, b, c, d, rfl, hscalar⟩), rfl⟩
    · rintro ⟨⟨y, t⟩, ht, heq⟩
      cases heq
      obtain ⟨a, b, c, d, rfl, hscalar⟩ := escape_u_eq_ok.1 (toOption_eq_some.1 ht)
      exact ⟨a, b, c, d, (strip_quoted_eq_append fun y hy => ne_of_escapedScalar? hscalar hy).2
        ⟨t, rfl, rfl⟩, hscalar⟩
  · cases hchar : escapedChar? e with
    | none => simp [escape, hu, hchar, Except.toOption]
    | some c => simp [escape, hu, hchar, Except.toOption]

/-- A quoted text is read as it was with the comments behind it. -/
theorem quotedBody_strip (s : List Char) :
    (quotedBody (strip .quoted s)).toOption =
      (quotedBody s).toOption.map (Prod.map id (strip .plain)) := by
  -- The induction follows the reader. It and the scan take a character at a time, except at an escape,
  -- of which the reader takes more than the two characters that the scan does.
  fun_induction quotedBody s with
  | case1 => rw [strip, quotedBody]; rfl
  | case2 rest =>
    rw [strip_quoted_quote, quotedBody, if_pos rfl]
    rfl
  | case3 rest =>
    rw [strip_quoted_cons (by decide) (by decide), quotedBody, if_neg (by decide), if_pos rfl]
    rfl
  | case4 rest scalar after he _ _ ih =>
    obtain ⟨e, t, rfl⟩ : ∃ e t, rest = e :: t := by
      cases rest with
      | nil => cases he
      | cons e t => exact ⟨e, t, rfl⟩
    have hmap := escape_strip e t
    rw [he] at hmap
    have hescape : escape (e :: strip .quoted t) = .ok (scalar, strip .quoted after) :=
      toOption_eq_some.1 hmap
    rw [strip_quoted_escape, quotedBody_backslash, hescape]
    dsimp only
    rw [toOption_cons, toOption_cons, ih]
    cases quotedBody after <;> rfl
  | case5 rest problem he _ _ =>
    cases rest with
    | nil =>
      have hstrip : strip .quoted ['\\'] = ['\\'] := rfl
      rw [hstrip, quotedBody_backslash]
      rfl
    | cons e t =>
      have hescape := escape_strip e t
      rw [he] at hescape
      rw [strip_quoted_escape, quotedBody_backslash]
      split
      · rename_i hok
        rw [hok] at hescape
        cases hescape
      · rfl
  | case6 c rest hquote hline hescape ih =>
    rw [strip_quoted_cons hquote hescape, quotedBody, if_neg hquote, if_neg hline, if_neg hescape,
      toOption_cons, toOption_cons, ih]
    cases quotedBody rest <;> rfl

/-! ## Triple-quoted texts -/

/-- A character that ends no triple-quoted text stays. -/
theorem strip_triple_cons {c : Char} {rest : List Char}
    (h : ∀ t, c = '"' → rest ≠ '"' :: '"' :: t) :
    strip .triple (c :: rest) = c :: strip .triple rest := by
  rw [strip.eq_7]
  exact fun t hc hrest => h t hc hrest

/-- The first two characters of a triple-quoted text stay. -/
theorem take_strip_triple (s : List Char) : (strip .triple s).take 2 = s.take 2 := by
  have hhead (t : List Char) : (strip .triple t).take 1 = t.take 1 := by
    cases t with
    | nil => rfl
    | cons c t =>
      by_cases hend : ∃ u, c = '"' ∧ t = '"' :: '"' :: u
      · obtain ⟨u, rfl, rfl⟩ := hend
        rfl
      · rw [strip_triple_cons fun u hc ht => hend ⟨u, hc, ht⟩]
        rfl
  cases s with
  | nil => rfl
  | cons c t =>
    by_cases hend : ∃ u, c = '"' ∧ t = '"' :: '"' :: u
    · obtain ⟨u, rfl, rfl⟩ := hend
      rfl
    · rw [strip_triple_cons fun u hc ht => hend ⟨u, hc, ht⟩, List.take_succ_cons, hhead t]
      rfl

/-- A triple-quoted text is read as it was with the comments behind it. -/
theorem tripleBody_strip (s : List Char) :
    tripleBody (strip .triple s) = (tripleBody s).map (Prod.map id (strip .plain)) := by
  fun_induction tripleBody s with
  | case1 => rfl
  | case2 rest => rfl
  | case3 c rest hnot ih =>
    rw [strip_triple_cons fun t hc ht => hnot t hc ht, tripleBody.eq_3, ih]
    · cases tripleBody rest <;> rfl
    · -- The two characters behind it are the same, so the text does not end here either.
      intro t hc ht
      have htwo := take_strip_triple rest
      rw [ht] at htwo
      cases rest with
      | nil => cases htwo
      | cons d rest =>
        cases rest with
        | nil => cases htwo
        | cons e u =>
          cases htwo
          exact hnot u hc rfl

/-! ## Scalars -/

/-- A bare word is what it was, and what is behind it has lost its comments. -/
theorem bareWord_strip (s : List Char) :
    bareWord (strip .plain s) = ((bareWord s).1, strip .plain (bareWord s).2) := by
  induction s with
  | nil => rfl
  | cons c rest ih =>
    by_cases hgoes : (isBareChar c && !startsComment (c :: rest)) = true
    · have hstart := startsComment_strip (c :: rest)
      have hword := hgoes
      rw [Bool.and_eq_true, Bool.not_eq_true'] at hword
      have hquote : c ≠ '"' := by
        rintro rfl
        exact absurd hword.1 (by decide)
      rw [strip_cons hquote, hword.2, if_neg Bool.false_ne_true] at hstart ⊢
      rw [bareWord, bareWord, hstart, hword.1, hword.2, ih]
      rfl
    · -- The word ends here, at a comment or at another character. Only a new line can come to the
      -- front from behind a comment, so without comments there is no word either.
      rw [bareWord, if_neg hgoes]
      have hends : ∀ d, (strip .plain (c :: rest)).head? = some d → isBareChar d = false := by
        refine not_of_head?_strip (by decide) fun d hd hbare => ?_
        rw [← Option.some.inj hd] at hbare
        rw [hbare, Bool.true_and, Bool.not_eq_true', Bool.not_eq_false] at hgoes
        exact hgoes
      generalize strip .plain (c :: rest) = r at hends
      cases r with
      | nil => rfl
      | cons d r => exact bareWord_eq_nil (hends d rfl) r

/-- Where no comment begins, none begins in a piece of the text from its front on. -/
theorem startsComment_of_append {w rest : List Char} (h : startsComment (w ++ rest) = false) :
    startsComment w = false := by
  cases w with
  | nil => rfl
  | cons c w =>
    rw [List.cons_append, startsComment_cons, Bool.or_eq_false_iff] at h
    rw [startsComment_cons, h.1, Bool.false_or]
    cases w with
    | nil => exact Bool.and_false _
    | cons d w => exact h.2

/-- A bare word holds no comment mark. -/
theorem strip_bareWord (s : List Char) : strip .plain (bareWord s).1 = (bareWord s).1 := by
  induction s with
  | nil => rfl
  | cons c rest ih =>
    have happend := bareWord_append (c :: rest)
    rw [bareWord] at happend ⊢
    split
    · rename_i hgoes
      rw [if_pos hgoes] at happend
      rw [Bool.and_eq_true, Bool.not_eq_true', ← happend] at hgoes
      have hquote : c ≠ '"' := by
        rintro rfl
        exact absurd hgoes.1 (by decide)
      rw [strip_cons hquote, startsComment_of_append hgoes.2, if_neg Bool.false_ne_true, ih]
    · rfl

/-- A token is read as it was, and what is behind it has lost its comments. -/
theorem token_strip (s : List Char) : (token (strip .plain s)).toOption =
    (token s).toOption.map (Option.map (Prod.map id (strip .plain))) := by
  by_cases hquote : s.head? = some '"'
  · obtain ⟨t, rfl⟩ := List.head?_eq_some_iff.1 hquote
    by_cases htriple : ∃ u, t = '"' :: '"' :: u
    · obtain ⟨u, rfl⟩ := htriple
      rw [strip_tripleQuote, token, token, tripleBody_strip]
      cases tripleBody u <;> rfl
    · have hnot : ∀ u, t ≠ '"' :: '"' :: u := fun u hu => htriple ⟨u, hu⟩
      -- A quoted text that closes at once has no quote behind it, with its comments or without.
      have hnot' : ∀ u, strip .quoted t ≠ '"' :: '"' :: u := by
        intro u hu
        have hfirst : t.head? = some '"' := by
          rw [← head?_strip_quoted, hu]
          rfl
        obtain ⟨v, rfl⟩ := List.head?_eq_some_iff.1 hfirst
        rw [strip_quoted_quote] at hu
        have hsecond : (strip .plain v).head? = some '"' := by
          rw [(List.cons.inj hu).2]
          rfl
        obtain ⟨w, rfl⟩ := List.head?_eq_some_iff.1 ((head?_strip_eq_some (by decide)).1 hsecond).1
        exact hnot w rfl
      rw [strip_quote hnot, token.eq_2 _ hnot, token.eq_2 _ hnot', toOption_map, toOption_map,
        quotedBody_strip]
      cases quotedBody t <;> rfl
  · have hquote' : (strip .plain s).head? ≠ some '"' :=
      fun h => hquote ((head?_strip_eq_some (by decide)).1 h).1
    rw [token_of_not_quote hquote, token_of_not_quote hquote', bareWord_strip]
    generalize bareWord s = w
    obtain ⟨word, after⟩ := w
    cases word <;> rfl

/-- Further tokens are read as they were, and what is behind them has lost its comments. -/
theorem moreTokens_strip (s : List Char) : (moreTokens (strip .plain s)).toOption =
    (moreTokens s).toOption.map (Prod.map id (strip .plain)) := by
  have htoken (s : List Char) : (token (afterBlanks (strip .plain s))).toOption =
      (token (afterBlanks s)).toOption.map (Option.map (Prod.map id (strip .plain))) := by
    rw [(blanks_strip s).2, token_strip]
  -- Each of the reader's cases is the case of one token, which `htoken` carries over.
  fun_induction moreTokens s with
  | case1 s fault ht =>
    obtain ⟨fault', ht'⟩ := toOption_eq_none.1 ((htoken s).trans (by rw [ht]; rfl))
    rw [moreTokens_eq, ht']
    rfl
  | case2 s ht =>
    have ht' := toOption_eq_some.1 ((htoken s).trans (by rw [ht]; rfl))
    rw [moreTokens_eq, ht']
    rfl
  | case3 s t rest ht ih =>
    have ht' : token (afterBlanks (strip .plain s)) = .ok (some (t, strip .plain rest)) :=
      toOption_eq_some.1 ((htoken s).trans (by rw [ht]; rfl))
    rw [moreTokens_eq, ht']
    dsimp only
    rw [toOption_map, toOption_map, ih, (blanks_strip s).1]
    cases moreTokens rest <;> rfl

/-- A scalar is read as it was, and what is behind it has lost its comments. -/
theorem scalar_strip (s : List Char) : (scalar (strip .plain s)).toOption =
    (scalar s).toOption.map (Option.map (Prod.map id (strip .plain))) := by
  have htoken := token_strip s
  unfold scalar
  cases ht : token s with
  | error fault =>
    rw [ht] at htoken
    obtain ⟨fault', ht'⟩ := toOption_eq_none.1 htoken
    rw [ht']
    rfl
  | ok read =>
    rw [ht] at htoken
    have ht' := toOption_eq_some.1 htoken
    rw [ht']
    cases read with
    | none => rfl
    | some p =>
      obtain ⟨t, rest⟩ := p
      change ((moreTokens (strip .plain rest)).map _).toOption = _
      rw [toOption_map, toOption_map, moreTokens_strip]
      cases moreTokens rest <;> rfl

end LeaderKey.Grammar
