import LeaderKey.Proofs.Grammar.Reads
import Mathlib.Data.List.DropRight
import Mathlib.Data.List.TakeWhile
import Mathlib.Tactic.SplitIfs

/-!
# Another text behind a token

A reader leaves the text behind what it has read, and another text may stand there instead. What has
been read is read again if nothing of it goes on: a gap that is over and a quoted text stay what
they are whatever follows (`gap_replace`, `quotedBody_replace`), a scalar asks that no token goes on
behind it and that no slash at its end becomes a comment mark (`EndsLike`, `scalar_replace`), and a
key path asks that no key goes on (`keyPath_replace`).
-/

namespace LeaderKey.Grammar

open LeaderKey.Text

/-! ## Gaps -/

/-- A comment begins with a hash or with two slashes. -/
theorem startsComment_cons (c : Char) (s : List Char) :
    startsComment (c :: s) = (c == '#' || c == '/' && s.head? == some '/') := by
  unfold startsComment
  split
  · rename_i heq
    cases heq
    rfl
  · rename_i heq
    cases heq
    rfl
  · rename_i hhash hslash
    have hc : c ≠ '#' := fun hc => hhash s (by rw [hc])
    cases s with
    | nil => simp [hc]
    | cons d s =>
      have hd : ¬ (c = '/' ∧ d = '/') := fun hd => hslash s (by rw [hd.1, hd.2])
      simpa [hc] using hd

/-- There is no gap right after a gap. -/
theorem gap_gap (inComment : Bool) (s : List Char) :
    gap false (gap inComment s).2 = (false, (gap inComment s).2) := by
  induction s generalizing inComment with
  | nil => rfl
  | cons c rest ih =>
    rw [gap]
    split_ifs with hline hinside hcomment
    · exact ih false
    · exact ih inComment
    · exact ih true
    · have hinline : ¬ (false || isInlineBlank c) = true := by
        rw [Bool.false_or]
        exact fun hinline => hinside (by rw [hinline, Bool.or_true])
      rw [gap, if_neg hline, if_neg hinline, if_neg hcomment]

/-- There is no gap at the front of the text after a gap. -/
theorem afterGap_afterGap (s : List Char) : afterGap (afterGap s) = afterGap s := by
  unfold afterGap
  rw [gap_gap]

/-- Where there is no gap, no line is crossed. -/
theorem crossesLine_of_afterGap {s : List Char} (h : afterGap s = s) : crossesLine s = false := by
  unfold afterGap at h
  have hgap := gap_gap false s
  rw [h] at hgap
  exact congrArg Prod.fst hgap

/-- A gap leaves no more than it was given. -/
theorem gap_ne_cons (inComment : Bool) (c : Char) (s : List Char) :
    (gap inComment s).2 ≠ c :: s := by
  intro h
  have hle := (gap_suffix inComment s).length_le
  rw [h, List.length_cons] at hle
  omega

/-- A comment takes the character after it. -/
theorem gap_true_ne_self {s : List Char} (h : s ≠ []) : (gap true s).2 ≠ s := by
  obtain ⟨c, t, rfl⟩ := List.exists_cons_of_ne_nil h
  rw [gap, Bool.true_or, if_pos rfl]
  split
  · exact gap_ne_cons _ _ _
  · exact gap_ne_cons _ _ _

/-- A gap that is over goes on with the gap at the front of whatever is put behind it. -/
theorem gap_replace {inComment : Bool} {g rest : List Char}
    (h : (gap inComment (g ++ rest)).2 = rest) (hrest : rest ≠ []) (rest' : List Char) :
    gap inComment (g ++ rest') =
      ((gap inComment (g ++ rest)).1 || (gap false rest').1, (gap false rest').2) := by
  induction g generalizing inComment with
  | nil =>
    -- Nothing is taken from what is left, so it does not begin inside a comment.
    obtain ⟨c, t, rfl⟩ := List.exists_cons_of_ne_nil hrest
    rw [List.nil_append, gap] at h
    split_ifs at h with hline hinside hcomment
    · exact absurd h (gap_ne_cons _ _ _)
    · exact absurd h (gap_ne_cons _ _ _)
    · exact absurd h (gap_ne_cons _ _ _)
    · have hout : inComment = false := by
        cases inComment with
        | false => rfl
        | true => exact absurd (Bool.true_or _) hinside
      rw [List.nil_append, List.nil_append, gap, if_neg hline, if_neg hinside, if_neg hcomment,
        hout, Bool.false_or]
  | cons c g ih =>
    rw [List.cons_append, gap] at h
    rw [List.cons_append, List.cons_append, gap, gap]
    split_ifs at h with hline hinside hcomment
    · rw [if_pos hline, if_pos hline, ih h, Bool.true_or]
    · rw [if_neg hline, if_pos hinside, if_neg hline, if_pos hinside, ih h]
    · -- The mark that begins the comment is all in the gap, because a comment has taken more.
      have hg : g ≠ [] := by
        rintro rfl
        exact gap_true_ne_self hrest h
      have hstart : startsComment (c :: (g ++ rest')) = true := by
        rw [startsComment_cons, List.head?_append_of_ne_nil _ hg] at hcomment ⊢
        exact hcomment
      rw [if_neg hline, if_neg hinside, if_pos hstart, if_neg hline, if_neg hinside,
        if_pos hcomment, ih h]
    · have hlength := congrArg List.length h
      rw [List.length_cons, List.length_append] at hlength
      omega

/-- The text after a gap that is over, with another text behind it. -/
theorem afterGap_replace {g rest : List Char} (h : afterGap (g ++ rest) = rest) (hrest : rest ≠ [])
    (rest' : List Char) : afterGap (g ++ rest') = afterGap rest' := by
  unfold afterGap at h ⊢
  rw [gap_replace h hrest]

/-- Whether a gap that is over crosses a line, with another text behind it. -/
theorem crossesLine_replace {g rest : List Char} (h : afterGap (g ++ rest) = rest)
    (hrest : rest ≠ []) (rest' : List Char) :
    crossesLine (g ++ rest') = (crossesLine (g ++ rest) || crossesLine rest') := by
  unfold crossesLine
  unfold afterGap at h
  rw [gap_replace h hrest]

/-- There is no gap exactly before a character that is no blank and begins no comment. -/
theorem afterGap_eq_self_iff {c : Char} {s : List Char} :
    afterGap (c :: s) = c :: s ↔ isBlank c = false ∧ startsComment (c :: s) = false := by
  unfold afterGap
  rw [gap, Bool.false_or]
  constructor
  · intro h
    split_ifs at h with hline hinline hcomment
    · exact absurd h (gap_ne_cons _ _ _)
    · exact absurd h (gap_ne_cons _ _ _)
    · exact absurd h (gap_ne_cons _ _ _)
    · refine ⟨?_, by simpa using hcomment⟩
      simpa [isInlineBlank, hline] using hinline
  · rintro ⟨hblank, hcomment⟩
    have hline : c ≠ '\n' := by
      rintro rfl
      exact absurd hblank (by decide)
    rw [if_neg hline, isInlineBlank, hblank, Bool.and_false, if_neg (by decide), hcomment,
      if_neg (by decide)]

/-- Some text without a gap at its front, with another text behind it. -/
theorem afterGap_append_eq_self {w rest rest' : List Char} (hw : w ≠ [])
    (h : afterGap (w ++ rest) = w ++ rest)
    (hslash : rest'.head? = some '/' → rest.head? = some '/') :
    afterGap (w ++ rest') = w ++ rest' := by
  obtain ⟨c, w, rfl⟩ := List.exists_cons_of_ne_nil hw
  rw [List.cons_append, afterGap_eq_self_iff] at h ⊢
  refine ⟨h.1, ?_⟩
  have hstart := h.2
  rw [startsComment_cons, Bool.or_eq_false_iff] at hstart ⊢
  refine ⟨hstart.1, ?_⟩
  cases w with
  | cons d w => exact hstart.2
  | nil =>
    rw [List.nil_append] at hstart ⊢
    by_cases hhead : rest'.head? = some '/'
    · rw [hhead]
      rw [hslash hhead] at hstart
      exact hstart.2
    · rw [beq_eq_false_iff_ne.2 hhead, Bool.and_false]

/-! ## Quotes -/

/-- An escape with another text behind it. -/
theorem escape_replace {e rest : List Char} {c : Char} (h : escape (e ++ rest) = .ok (c, rest))
    (rest' : List Char) : escape (e ++ rest') = .ok (c, rest') := by
  generalize hs : e ++ rest = s at h
  unfold escape at h
  split at h
  · cases h
  · rename_i x r
    split at h
    · rename_i hx
      split at h
      · rename_i a b c' d r
        split at h
        · rename_i scalar hscalar
          cases h
          obtain rfl : e = [x, a, b, c', d] := List.append_cancel_right (hs.trans rfl)
          unfold escape
          simp only [List.cons_append, List.nil_append]
          rw [if_pos hx, hscalar]
        · cases h
      · cases h
    · rename_i hx
      split at h
      · rename_i d hd
        cases h
        obtain rfl : e = [x] := List.append_cancel_right (hs.trans rfl)
        unfold escape
        simp only [List.cons_append, List.nil_append]
        rw [if_neg hx, hd]
      · cases h

/-- An escape by number has its four places. -/
theorem escape_u_eq_ok {s rest : List Char} {x : Char} :
    escape ('u' :: s) = .ok (x, rest) ↔
      ∃ a b c d, s = [a, b, c, d] ++ rest ∧ escapedScalar? a b c d = some x := by
  constructor
  · intro h
    unfold escape at h
    dsimp only at h
    rw [if_pos rfl] at h
    split at h
    · rename_i a b c d t
      split at h
      · rename_i hscalar
        cases h
        exact ⟨a, b, c, d, rfl, hscalar⟩
      · cases h
    · cases h
  · rintro ⟨a, b, c, d, rfl, hscalar⟩
    unfold escape
    simp only [List.cons_append, List.nil_append, if_true]
    rw [hscalar]

/-- A quoted text goes on after an escape. -/
theorem quotedBody_backslash (s : List Char) : quotedBody ('\\' :: s) =
    match escape s with
    | .ok (scalar, after) => (quotedBody after).cons scalar
    | .error problem => .error ⟨problem, '\\' :: s⟩ := by
  rw [quotedBody, if_neg (by decide), if_neg (by decide), if_pos rfl]
  split <;> rename_i heq <;> rw [heq]

/-- A quoted text with another text behind it. -/
theorem quotedBody_replace {b rest text : List Char} (h : quotedBody (b ++ rest) = .ok (text, rest))
    (rest' : List Char) : quotedBody (b ++ rest') = .ok (text, rest') := by
  generalize hs : b ++ rest = s at h
  fun_induction quotedBody s generalizing b text with
  | case1 => cases h
  | case2 r =>
    cases h
    obtain rfl : b = ['"'] := List.append_cancel_right (hs.trans rfl)
    rw [List.singleton_append, quotedBody, if_pos rfl]
  | case3 => cases h
  | case4 r scalar after he _ _ ih =>
    obtain ⟨t, rfl, ht⟩ := Result.cons_eq_ok.1 h
    obtain ⟨u, rfl⟩ := (quotedBody_suffix ht).1
    obtain ⟨e, rfl⟩ := (escape_suffix he).1
    obtain rfl : b = '\\' :: (e ++ u) := by
      apply List.append_cancel_right (hs.trans _)
      simp
    rw [List.cons_append, List.append_assoc, quotedBody_backslash, escape_replace he]
    dsimp only
    rw [ih rfl ht]
    rfl
  | case5 => cases h
  | case6 c r hquote hline hescape ih =>
    obtain ⟨t, rfl, ht⟩ := Result.cons_eq_ok.1 h
    obtain ⟨u, rfl⟩ := (quotedBody_suffix ht).1
    obtain rfl : b = c :: u := List.append_cancel_right (hs.trans rfl)
    rw [List.cons_append, quotedBody, if_neg hquote, if_neg hline, if_neg hescape, ih rfl ht]
    rfl

/-- A triple-quoted text has its closing quotes. -/
theorem length_le_of_tripleBody {s text rest : List Char} (h : tripleBody s = some (text, rest)) :
    rest.length + 3 ≤ s.length := by
  fun_induction tripleBody s generalizing text with
  | case1 => cases h
  | case2 r =>
    cases h
    simp
  | case3 c r _ ih =>
    obtain ⟨⟨t, u⟩, ht, hu⟩ := Option.map_eq_some_iff.1 h
    cases hu
    have := ih ht
    simp only [List.length_cons]
    omega

/-- A triple-quoted text with another text behind it. -/
theorem tripleBody_replace {b rest text : List Char}
    (h : tripleBody (b ++ rest) = some (text, rest))
    (rest' : List Char) : tripleBody (b ++ rest') = some (text, rest') := by
  generalize hs : b ++ rest = s at h
  fun_induction tripleBody s generalizing b text with
  | case1 => cases h
  | case2 r =>
    cases h
    obtain rfl : b = ['"', '"', '"'] := List.append_cancel_right (hs.trans rfl)
    rfl
  | case3 c r hnot ih =>
    obtain ⟨⟨t, u⟩, ht, hu⟩ := Option.map_eq_some_iff.1 h
    cases hu
    obtain ⟨v, rfl⟩ := (tripleBody_suffix ht).1
    obtain rfl : b = c :: v := List.append_cancel_right (hs.trans rfl)
    rw [List.cons_append, tripleBody.eq_3, ih rfl ht]
    · rfl
    · -- The closing quotes are still to come, so the next two characters are in the text.
      have hlength := length_le_of_tripleBody ht
      rw [List.length_append] at hlength
      obtain ⟨d, e, w, rfl⟩ : ∃ d e w, v = d :: e :: w := by
        match v with
        | d :: e :: w => exact ⟨d, e, w, rfl⟩
        | [_] | [] =>
          simp only [List.length_cons, List.length_nil] at hlength
          omega
      intro x hc hv
      cases hv
      exact hnot (w ++ rest) hc rfl

/-! ## Scalars -/

/-- `rest'` ends a phrase where `rest` ended one: no token goes on there unless one did before, and
no slash before it becomes a comment mark. -/
def EndsLike (rest rest' : List Char) : Prop :=
  (token (afterBlanks rest) = .ok none → token (afterBlanks rest') = .ok none) ∧
    (rest'.head? = some '/' → rest.head? = some '/')

/-- A token begins with a quote or with a bare word. -/
theorem token_eq_none_iff {s : List Char} :
    token s = .ok none ↔ s.head? ≠ some '"' ∧ (bareWord s).1 = [] := by
  constructor
  · intro h
    have hquote : s.head? ≠ some '"' := by
      intro hs
      obtain ⟨t, rfl⟩ := List.head?_eq_some_iff.1 hs
      unfold token at h
      split at h
      · split at h <;> cases h
      · obtain ⟨_, _, hcontra⟩ := of_map_eq_ok h
        cases hcontra
      · rename_i hnot
        exact hnot t rfl
    rw [token_of_not_quote hquote] at h
    refine ⟨hquote, ?_⟩
    split at h
    · rename_i heq
      rw [heq]
    · cases h
  · rintro ⟨hquote, hword⟩
    rw [token_of_not_quote hquote]
    generalize bareWord s = w at hword ⊢
    obtain ⟨word, after⟩ := w
    cases hword
    rfl

/-- Where no token goes on behind blanks, no bare word goes on before them. -/
theorem bareWord_of_ends {s : List Char} (h : token (afterBlanks s) = .ok none) :
    (bareWord s).1 = [] := by
  cases s with
  | nil => rfl
  | cons c t =>
    cases hblank : isInlineBlank c with
    | true => rw [bareWord_eq_nil (not_isBareChar_of_isBlank (isBlank_of_isInlineBlank hblank))]
    | false =>
      rw [afterBlanks, List.dropWhile_cons_of_neg (by simp [hblank])] at h
      exact (token_eq_none_iff.1 h).2

/-- Where no token goes on behind blanks, there is no quote before them. -/
theorem head?_ne_quote_of_ends {s : List Char} (h : token (afterBlanks s) = .ok none) :
    s.head? ≠ some '"' := by
  intro hs
  obtain ⟨t, rfl⟩ := List.head?_eq_some_iff.1 hs
  rw [afterBlanks, List.dropWhile_cons_of_neg (by decide)] at h
  exact (token_eq_none_iff.1 h).1 rfl

/-- What a bare word leaves begins with no bare word. -/
theorem bareWord_bareWord (s : List Char) : (bareWord (bareWord s).2).1 = [] := by
  induction s with
  | nil => rfl
  | cons c rest ih =>
    rw [bareWord]
    split
    · exact ih
    · rename_i hstop
      rw [bareWord, if_neg hstop]

/-- A bare word with another text behind it. -/
theorem bareWord_replace {word rest rest' : List Char} (h : bareWord (word ++ rest) = (word, rest))
    (hend : (bareWord rest').1 = []) (hslash : rest'.head? = some '/' → rest.head? = some '/') :
    bareWord (word ++ rest') = (word, rest') := by
  induction word with
  | nil =>
    have happend := bareWord_append rest'
    rw [hend, List.nil_append] at happend
    rw [List.nil_append, ← hend, Prod.ext_iff]
    exact ⟨rfl, happend⟩
  | cons c word ih =>
    rw [List.cons_append, bareWord] at h
    split at h
    · rename_i hgoes
      simp only [Prod.mk.injEq, List.cons.injEq, true_and] at h
      have hmore := ih (Prod.ext h.1 h.2)
      have hgoes' : (isBareChar c && !startsComment (c :: (word ++ rest'))) = true := by
        rw [Bool.and_eq_true, Bool.not_eq_true', startsComment_cons] at hgoes ⊢
        refine ⟨hgoes.1, ?_⟩
        cases word with
        | cons d word => exact hgoes.2
        | nil =>
          have hstart := hgoes.2
          rw [List.nil_append, Bool.or_eq_false_iff] at hstart ⊢
          refine ⟨hstart.1, ?_⟩
          -- A slash behind a slash would have ended the word one character before.
          by_cases hhead : rest'.head? = some '/'
          · rw [hhead]
            rw [hslash hhead] at hstart
            exact hstart.2
          · rw [beq_eq_false_iff_ne.2 hhead, Bool.and_false]
      rw [List.cons_append, bareWord, if_pos hgoes', hmore]
    · cases h

/-- A token with another text behind it, which does not make it longer. -/
theorem token_replace {k rest rest' : List Char} {t : Token}
    (h : token (k ++ rest) = .ok (some (t, rest)))
    (hquote : rest'.head? = some '"' → rest.head? = some '"')
    (hbare : (bareWord rest).1 = [] → (bareWord rest').1 = [])
    (hslash : rest'.head? = some '/' → rest.head? = some '/') :
    token (k ++ rest') = .ok (some (t, rest')) := by
  generalize hs : k ++ rest = s at h
  unfold token at h
  split at h
  · rename_i r
    split at h
    · rename_i text after hbody
      cases h
      obtain ⟨u, rfl⟩ := (tripleBody_suffix hbody).1
      obtain rfl : k = '"' :: '"' :: '"' :: u := List.append_cancel_right (hs.trans rfl)
      show token ('"' :: '"' :: '"' :: (u ++ rest')) = _
      rw [token, tripleBody_replace hbody]
    · cases h
  · rename_i r hnot
    obtain ⟨⟨text, after⟩, hbody, heq⟩ := of_map_eq_ok h
    cases heq
    obtain ⟨u, rfl⟩ := (quotedBody_suffix hbody).1
    obtain rfl : k = '"' :: u := List.append_cancel_right (hs.trans rfl)
    rw [List.cons_append, token.eq_2, quotedBody_replace hbody]
    · rfl
    · -- Two quotes are a text of their own, unless a third one stands behind them.
      intro x hx
      match u, hbody, hx, hnot with
      | [d], hbody, hx, hnot =>
        simp only [List.cons_append, List.nil_append, List.cons.injEq] at hx
        obtain ⟨r, hr⟩ := List.head?_eq_some_iff.1 (hquote (by rw [hx.2]; rfl))
        exact hnot r (by rw [hx.1, hr]; rfl)
      | d :: e :: w, hbody, hx, hnot =>
        simp only [List.cons_append, List.cons.injEq] at hx
        exact hnot (w ++ rest) (by rw [hx.1, hx.2.1]; rfl)
      | [], hbody, hx, hnot =>
        have hlt := (quotedBody_suffix hbody).2
        exact absurd hlt (Nat.lt_irrefl _)
  · rename_i hnottriple hnotquote
    split at h
    · cases h
    · -- A bare word ends where it ended, as nothing behind it makes it longer.
      rename_i word after hne hword
      cases h
      have happend := bareWord_append s
      rw [hword] at happend
      obtain rfl : k = word := List.append_cancel_right (hs.trans happend.symm)
      have hend : (bareWord rest).1 = [] := by
        have := bareWord_bareWord s
        rwa [hword] at this
      subst hs
      have hhead : (k ++ rest').head? ≠ some '"' := by
        obtain ⟨c, w, rfl⟩ := List.exists_cons_of_ne_nil hne
        intro hc
        exact hnotquote (w ++ rest) (by rw [List.cons_append, Option.some.inj hc])
      rw [token_of_not_quote hhead, bareWord_replace hword (hbare hend) hslash]
      obtain ⟨c, w, rfl⟩ := List.exists_cons_of_ne_nil hne
      rfl

/-- The characters that were dropped all satisfy the predicate. -/
theorem forall_of_dropWhile_append {p : Char → Bool} {b s : List Char}
    (h : (b ++ s).dropWhile p = s) : ∀ c ∈ b, p c = true := by
  induction b with
  | nil => simp
  | cons c b ih =>
    cases hc : p c with
    | true =>
      rw [List.cons_append, List.dropWhile_cons_of_pos hc] at h
      exact List.forall_mem_cons.2 ⟨hc, ih h⟩
    | false =>
      rw [List.cons_append, List.dropWhile_cons_of_neg (by simp [hc])] at h
      have hlength := congrArg List.length h
      rw [List.length_cons, List.length_append] at hlength
      omega

/-- A text begins with blanks, and goes on after them. -/
theorem exists_blanks (s : List Char) :
    ∃ b, (∀ c ∈ b, isInlineBlank c = true) ∧ b ++ afterBlanks s = s :=
  ⟨s.takeWhile isInlineBlank, fun _ hc => List.mem_takeWhile_imp hc,
    List.takeWhile_append_dropWhile⟩

/-- Blanks before a text are skipped. -/
theorem afterBlanks_append_blanks {b : List Char} (h : ∀ c ∈ b, isInlineBlank c = true)
    (s : List Char) : afterBlanks (b ++ s) = afterBlanks s :=
  List.dropWhile_append_of_pos h

/-- Blanks with another text behind them. -/
theorem afterBlanks_replace {b s : List Char} (h : afterBlanks (b ++ s) = s) (s' : List Char) :
    afterBlanks (b ++ s') = afterBlanks s' :=
  afterBlanks_append_blanks (forall_of_dropWhile_append h) s'

/-- There are no blanks right after blanks. -/
theorem afterBlanks_afterBlanks (s : List Char) : afterBlanks (afterBlanks s) = afterBlanks s :=
  List.dropWhile_idempotent _ s

/-- Whether blanks follow depends on the first character only. -/
theorem afterBlanks_append_of_ne_nil {k s : List Char} (hk : k ≠ [])
    (h : afterBlanks (k ++ s) = k ++ s) (s' : List Char) : afterBlanks (k ++ s') = k ++ s' := by
  obtain ⟨c, k, rfl⟩ := List.exists_cons_of_ne_nil hk
  cases hc : isInlineBlank c with
  | true =>
    rw [List.cons_append, afterBlanks, List.dropWhile_cons_of_pos hc] at h
    have hle := (List.dropWhile_suffix isInlineBlank (l := k ++ s)).length_le
    rw [h, List.length_cons] at hle
    omega
  | false =>
    rw [List.cons_append, afterBlanks, List.dropWhile_cons_of_neg (by simp [hc])]

/-- What follows the first token of a line. -/
theorem moreTokens_eq (s : List Char) : moreTokens s =
    match token (afterBlanks s) with
    | .error fault => .error fault
    | .ok none => .ok ([], s)
    | .ok (some (t, rest)) =>
      (moreTokens rest).map fun (ts, after) => ((s.takeWhile isInlineBlank, t) :: ts, after) := by
  rw [moreTokens]
  split <;> rename_i heq <;> rw [heq]

/-- Nothing follows at the end of the text. -/
theorem moreTokens_nil : moreTokens [] = .ok ([], []) := by
  rw [moreTokens_eq]
  rfl

/-- A token behind blanks, and the tokens behind it. -/
theorem moreTokens_cons {s rest after : List Char} {t : Token} {ts : List (List Char × Token)}
    (h : token (afterBlanks s) = .ok (some (t, rest))) (hmore : moreTokens rest = .ok (ts, after)) :
    moreTokens s = .ok ((s.takeWhile isInlineBlank, t) :: ts, after) := by
  rw [moreTokens_eq, h]
  dsimp only
  rw [hmore]
  rfl

/-- Behind the last token, no token goes on. -/
theorem ends_of_moreTokens {s rest : List Char} {ts : List (List Char × Token)}
    (h : moreTokens s = .ok (ts, rest)) : token (afterBlanks rest) = .ok none := by
  fun_induction moreTokens s generalizing ts with
  | case1 => cases h
  | case2 s ht =>
    cases h
    exact ht
  | case3 s t r ht ih =>
    obtain ⟨⟨more, after⟩, hmore, heq⟩ := of_map_eq_ok h
    cases heq
    exact ih hmore

/-- Where a bare word ends before another token, no bare character stands. -/
theorem not_isBareChar_of_token {c : Char} {s : List Char} (hword : (bareWord (c :: s)).1 = [])
    (h : token (afterBlanks (c :: s)) ≠ .ok none) : isBareChar c = false := by
  by_contra hbare
  rw [Bool.not_eq_false] at hbare
  have hblank : isInlineBlank c = false := by
    by_contra hblank
    rw [Bool.not_eq_false] at hblank
    rw [not_isBareChar_of_isBlank (isBlank_of_isInlineBlank hblank)] at hbare
    cases hbare
  have hquote : (c :: s).head? ≠ some '"' := by
    intro hc
    rw [Option.some.inj hc] at hbare
    exact absurd hbare (by decide)
  apply h
  rw [afterBlanks, List.dropWhile_cons_of_neg (by simp [hblank])]
  exact token_eq_none_iff.2 ⟨hquote, hword⟩

/-- A token before another one, with another text behind it that begins with the same character. -/
theorem token_replace_of_head {k s s' : List Char} {t : Token}
    (ht : token (k ++ s) = .ok (some (t, s))) (hs : s ≠ [])
    (hmore : token (afterBlanks s) ≠ .ok none)
    (hhead : s'.head? = s.head?) : token (k ++ s') = .ok (some (t, s')) := by
  obtain ⟨c, u, rfl⟩ := List.exists_cons_of_ne_nil hs
  obtain ⟨u', rfl⟩ := List.head?_eq_some_iff.1 hhead
  refine token_replace ht id (fun hword => ?_) id
  rw [bareWord_eq_nil (not_isBareChar_of_token hword hmore)]

/-- A token and the tokens behind it, with another text behind them all. -/
theorem token_replace_moreTokens {k m rest rest' : List Char} {t : Token}
    {ts : List (List Char × Token)} (ht : token (k ++ (m ++ rest)) = .ok (some (t, m ++ rest)))
    (hmore : moreTokens (m ++ rest) = .ok (ts, rest)) (hlike : EndsLike rest rest') :
    token (k ++ (m ++ rest')) = .ok (some (t, m ++ rest')) := by
  have hends := hlike.1 (ends_of_moreTokens hmore)
  by_cases hm : m = []
  · subst hm
    refine token_replace ht ?_ (fun _ => bareWord_of_ends hends) hlike.2
    intro hquote
    exact absurd hquote (head?_ne_quote_of_ends hends)
  · have hlonger : token (afterBlanks (m ++ rest)) ≠ .ok none := by
      intro hnone
      rw [moreTokens_eq, hnone] at hmore
      exact hm (List.append_left_eq_self.1 (congrArg Prod.snd (Except.ok.inj hmore)))
    refine token_replace_of_head ht (by simp [hm]) hlonger ?_
    rw [List.head?_append_of_ne_nil _ hm, List.head?_append_of_ne_nil _ hm]

/-- Further tokens with another text behind them. -/
theorem moreTokens_replace {m rest rest' : List Char} {ts : List (List Char × Token)}
    (h : moreTokens (m ++ rest) = .ok (ts, rest)) (hlike : EndsLike rest rest') :
    moreTokens (m ++ rest') = .ok (ts, rest') := by
  generalize hs : m ++ rest = s at h
  fun_induction moreTokens s generalizing m ts with
  | case1 => cases h
  | case2 s ht =>
    cases h
    obtain rfl : m = [] := List.append_left_eq_self.1 hs
    rw [List.nil_append, moreTokens_eq, hlike.1 ht]
  | case3 s t r ht ih =>
    obtain ⟨⟨more, after⟩, hmore, heq⟩ := of_map_eq_ok h
    cases heq
    obtain ⟨u, rfl⟩ := moreTokens_suffix hmore
    obtain ⟨⟨k, hk⟩, hlt⟩ := token_suffix ht
    -- The text is blanks, a token and the tokens behind it.
    have hblanks : s.takeWhile isInlineBlank ++ (k ++ (u ++ rest)) = s := by
      rw [hk]
      exact List.takeWhile_append_dropWhile
    generalize hb : s.takeWhile isInlineBlank = b at hblanks
    obtain rfl : m = b ++ (k ++ u) := by
      apply List.append_cancel_right (hs.trans (hblanks.symm.trans _))
      simp
    have hkne : k ≠ [] := by
      rintro rfl
      rw [← hk, List.nil_append] at hlt
      exact Nat.lt_irrefl _ hlt
    have hafter : afterBlanks (k ++ (u ++ rest')) = k ++ (u ++ rest') := by
      refine afterBlanks_append_of_ne_nil hkne (s := u ++ rest) ?_ _
      rw [hk, afterBlanks_afterBlanks]
    have hall : ∀ c ∈ b, isInlineBlank c = true := by
      rw [← hb]
      exact fun c hc => List.mem_takeWhile_imp hc
    have hassoc : b ++ (k ++ u) ++ rest' = b ++ (k ++ (u ++ rest')) := by simp
    have hdrop : afterBlanks (b ++ (k ++ (u ++ rest'))) = k ++ (u ++ rest') :=
      (afterBlanks_append_blanks hall _).trans hafter
    have htake : (b ++ (k ++ (u ++ rest'))).takeWhile isInlineBlank = b := by
      have hsplit := List.takeWhile_append_dropWhile (p := isInlineBlank)
        (l := b ++ (k ++ (u ++ rest')))
      rw [show (b ++ (k ++ (u ++ rest'))).dropWhile isInlineBlank = _ from hdrop] at hsplit
      exact List.append_cancel_right hsplit
    rw [← hk] at ht
    have htoken : token (afterBlanks (b ++ (k ++ (u ++ rest')))) = .ok (some (t, u ++ rest')) := by
      rw [hdrop]
      exact token_replace_moreTokens ht hmore hlike
    have hcons := moreTokens_cons htoken (ih rfl hmore)
    rwa [htake, ← hassoc] at hcons

/-- A scalar is a token and the tokens behind it. -/
theorem scalar_eq_some {s rest after : List Char} {t : Token} {ts : List (List Char × Token)}
    (h : token s = .ok (some (t, rest))) (hmore : moreTokens rest = .ok (ts, after)) :
    scalar s = .ok (some (tokensValue t ts, after)) := by
  rw [scalar, h]
  dsimp only
  rw [hmore]
  rfl

/-- A scalar with another text behind it. -/
theorem scalar_replace {k rest rest' : List Char} {v : Value}
    (h : scalar (k ++ rest) = .ok (some (v, rest))) (hlike : EndsLike rest rest') :
    scalar (k ++ rest') = .ok (some (v, rest')) := by
  unfold scalar at h
  split at h
  · cases h
  · cases h
  · rename_i first r ht
    obtain ⟨⟨more, after⟩, hmore, heq⟩ := of_map_eq_ok h
    cases heq
    obtain ⟨m, rfl⟩ := moreTokens_suffix hmore
    obtain ⟨t, hk⟩ := (token_suffix ht).1
    obtain rfl : k = t ++ m := by
      apply List.append_cancel_right (hk.symm.trans _)
      simp
    rw [List.append_assoc] at ht ⊢
    exact scalar_eq_some (token_replace_moreTokens ht hmore hlike) (moreTokens_replace hmore hlike)

/-! ## Key paths -/

/-- A key that begins with no quote is a run of key characters. -/
theorem key_of_not_quote {s : List Char} (h : s.head? ≠ some '"') :
    key s = match s.takeWhile isKeyChar with
      | [] => .ok none
      | name => .ok (some (name, s.dropWhile isKeyChar)) := by
  unfold key
  split
  · exact absurd rfl h
  · rfl

/-- A key with another text behind it. -/
theorem key_replace {k rest rest' name : List Char} (h : key (k ++ rest) = .ok (some (name, rest)))
    (hrest' : rest'.takeWhile isKeyChar = []) : key (k ++ rest') = .ok (some (name, rest')) := by
  generalize hs : k ++ rest = s at h
  unfold key at h
  split at h
  · rename_i r
    obtain ⟨⟨text, after⟩, hbody, heq⟩ := of_map_eq_ok h
    cases heq
    obtain ⟨u, rfl⟩ := (quotedBody_suffix hbody).1
    obtain rfl : k = '"' :: u := List.append_cancel_right (hs.trans rfl)
    show (quotedBody (u ++ rest')).map some = _
    rw [quotedBody_replace hbody]
    rfl
  · rename_i hnotquote
    split at h
    · cases h
    · rename_i hne
      cases h
      -- The key is all of the text before the rest, and its characters are key characters.
      have hsplit := List.takeWhile_append_dropWhile (p := isKeyChar) (l := s)
      have hk : k = s.takeWhile isKeyChar := List.append_cancel_right (hs.trans hsplit.symm)
      have hall : ∀ c ∈ k, isKeyChar c = true := by
        rw [hk]
        exact fun c hc => List.mem_takeWhile_imp hc
      have hkne : k ≠ [] := by
        rw [hk]
        exact hne
      have hhead : (k ++ rest').head? ≠ some '"' := by
        obtain ⟨c, w, rfl⟩ := List.exists_cons_of_ne_nil hkne
        intro hc
        have hcq : c = '"' := Option.some.inj hc
        exact absurd (hall c List.mem_cons_self) (by rw [hcq]; decide)
      have hdrop : rest'.dropWhile isKeyChar = rest' := by
        have := List.takeWhile_append_dropWhile (p := isKeyChar) (l := rest')
        rwa [hrest', List.nil_append] at this
      rw [key_of_not_quote hhead, List.takeWhile_append_of_pos hall, hrest', List.append_nil,
        List.dropWhile_append_of_pos hall, hdrop, ← hk]
      obtain ⟨c, w, rfl⟩ := List.exists_cons_of_ne_nil hkne
      rfl

/-- A text that begins with a character of no bare word ends a key path. -/
theorem ends_keyPath {rest : List Char} (h : ∀ c, rest.head? = some c → isBareChar c = false) :
    rest.takeWhile isKeyChar = [] ∧ rest.head? ≠ some '.' := by
  cases rest with
  | nil => exact ⟨rfl, nofun⟩
  | cons c t =>
    have hc := h c rfl
    have hkey : ¬ isKeyChar c = true := by
      rw [isKeyChar, hc, Bool.false_and]
      decide
    refine ⟨List.takeWhile_cons_of_neg hkey, fun hdot => ?_⟩
    rw [Option.some.inj hdot] at hc
    exact absurd hc (by decide)

/-- The keys behind a dot. -/
theorem moreKeys_dot (s : List Char) : moreKeys ('.' :: s) =
    match key s with
    | .error fault => .error fault
    | .ok none => .ok ([], '.' :: s)
    | .ok (some (name, rest)) =>
      (moreKeys rest).map fun (names, after) => (String.ofList name :: names, after) := by
  rw [moreKeys]
  split <;> rename_i heq <;> rw [heq]

/-- There are no further keys without a dot. -/
theorem moreKeys_of_not_dot {s : List Char} (h : s.head? ≠ some '.') :
    moreKeys s = .ok ([], s) := by
  cases s with
  | nil => rw [moreKeys.eq_2 _ (by rintro _ ⟨⟩)]
  | cons c rest =>
    rw [moreKeys.eq_2]
    rintro t heq
    cases heq
    exact h rfl

/-- A key behind a dot, and the keys behind it. -/
theorem moreKeys_cons {s rest after name : List Char} {names : List String}
    (h : key s = .ok (some (name, rest))) (hmore : moreKeys rest = .ok (names, after)) :
    moreKeys ('.' :: s) = .ok (String.ofList name :: names, after) := by
  rw [moreKeys_dot, h]
  dsimp only
  rw [hmore]
  rfl

/-- A key path is a key and the keys behind it. -/
theorem keyPath_eq_some {s rest after name : List Char} {names : List String}
    (h : key s = .ok (some (name, rest))) (hmore : moreKeys rest = .ok (names, after)) :
    keyPath s = .ok (some (String.ofList name :: names, after)) := by
  rw [keyPath, h]
  dsimp only
  rw [hmore]
  rfl

/-- Further keys begin with a dot, if there are any. -/
theorem head?_of_moreKeys {c : Char} {m rest : List Char} {names : List String}
    (h : moreKeys (c :: (m ++ rest)) = .ok (names, rest)) : c = '.' := by
  by_contra hc
  rw [moreKeys_of_not_dot (by simpa using hc)] at h
  have hlength := congrArg List.length (congrArg Prod.snd (Except.ok.inj h))
  simp only [List.length_cons, List.length_append] at hlength
  omega

/-- A key and the keys behind it, with another text behind them all. -/
theorem key_replace_moreKeys {k m rest rest' name : List Char} {names : List String}
    (hk : key (k ++ (m ++ rest)) = .ok (some (name, m ++ rest)))
    (hmore : moreKeys (m ++ rest) = .ok (names, rest))
    (hrest' : ∀ c, rest'.head? = some c → isBareChar c = false) :
    key (k ++ (m ++ rest')) = .ok (some (name, m ++ rest')) := by
  refine key_replace hk ?_
  cases m with
  | nil => exact (ends_keyPath hrest').1
  | cons c m =>
    obtain rfl := head?_of_moreKeys hmore
    exact List.takeWhile_cons_of_neg (by decide)

/-- Further keys with another text behind them. -/
theorem moreKeys_replace {m rest rest' : List Char} {names : List String}
    (h : moreKeys (m ++ rest) = .ok (names, rest))
    (hrest' : ∀ c, rest'.head? = some c → isBareChar c = false) :
    moreKeys (m ++ rest') = .ok (names, rest') := by
  have hnone : moreKeys rest' = .ok ([], rest') := moreKeys_of_not_dot (ends_keyPath hrest').2
  generalize hs : m ++ rest = s at h
  fun_induction moreKeys s generalizing m names with
  | case1 => cases h
  | case2 s hk =>
    cases h
    obtain rfl : m = [] := List.append_left_eq_self.1 hs
    exact hnone
  | case3 s name r hk ih =>
    obtain ⟨⟨more, after⟩, hmore, heq⟩ := of_map_eq_ok h
    cases heq
    obtain ⟨u, rfl⟩ := moreKeys_suffix hmore
    obtain ⟨k, rfl⟩ := (key_suffix hk).1
    obtain rfl : m = '.' :: (k ++ u) := by
      apply List.append_cancel_right (hs.trans _)
      simp
    rw [List.cons_append, List.append_assoc]
    exact moreKeys_cons (key_replace_moreKeys hk hmore hrest') (ih rfl hmore)
  | case4 s hdot =>
    cases h
    obtain rfl : m = [] := List.append_left_eq_self.1 hs
    exact hnone

/-- A key path that stands there is a key and the keys behind it. -/
theorem exists_key_of_keyPath {k rest : List Char} {path : List String}
    (h : keyPath (k ++ rest) = .ok (some (path, rest))) : ∃ first more name names,
      k = first ++ more ∧ path = String.ofList name :: names ∧
        key (first ++ (more ++ rest)) = .ok (some (name, more ++ rest)) ∧
        moreKeys (more ++ rest) = .ok (names, rest) := by
  unfold keyPath at h
  split at h
  · cases h
  · cases h
  · rename_i name r hk
    obtain ⟨⟨names, after⟩, hmore, heq⟩ := of_map_eq_ok h
    cases heq
    obtain ⟨m, rfl⟩ := moreKeys_suffix hmore
    obtain ⟨t, ht⟩ := (key_suffix hk).1
    obtain rfl : k = t ++ m := by
      apply List.append_cancel_right (ht.symm.trans _)
      simp
    rw [List.append_assoc] at hk
    exact ⟨t, m, name, names, rfl, rfl, hk, hmore⟩

/-- A key path with another text behind it, which begins no bare word. -/
theorem keyPath_replace {k rest rest' : List Char} {path : List String}
    (h : keyPath (k ++ rest) = .ok (some (path, rest)))
    (hrest' : ∀ c, rest'.head? = some c → isBareChar c = false) :
    keyPath (k ++ rest') = .ok (some (path, rest')) := by
  obtain ⟨first, more, name, names, rfl, rfl, hk, hmore⟩ := exists_key_of_keyPath h
  rw [List.append_assoc]
  exact keyPath_eq_some (key_replace_moreKeys hk hmore hrest') (moreKeys_replace hmore hrest')

/-- Behind a separator and blanks stands the value. -/
theorem fieldValue?_of_separator {s r : List Char} {d : Char} (h : afterBlanks s = d :: r)
    (hd : d = ':' ∨ d = '=') : fieldValue? s = some (afterBlanks r) := by
  unfold fieldValue?
  rw [h]
  rcases hd with rfl | rfl
  · rfl
  · rfl

/-- Before a brace no separator is needed. -/
theorem fieldValue?_of_brace {s r : List Char} (h : afterBlanks s = '{' :: r) :
    fieldValue? s = some ('{' :: r) := by
  unfold fieldValue?
  rw [h]
  rfl

/-- What leads from a key to its value is nothing before a brace, or a separator and blanks. -/
theorem fieldValue?_eq_some {s start : List Char} (h : fieldValue? s = some start) :
    (∃ r, afterBlanks s = '{' :: r ∧ start = '{' :: r) ∨
      ∃ d r, (d = ':' ∨ d = '=') ∧ afterBlanks s = d :: r ∧ start = afterBlanks r := by
  unfold fieldValue? at h
  split at h
  · rename_i r heq
    exact Or.inl ⟨r, heq, (Option.some.inj h).symm⟩
  · rename_i r heq
    exact Or.inr ⟨':', r, Or.inl rfl, heq, (Option.some.inj h).symm⟩
  · rename_i r heq
    exact Or.inr ⟨'=', r, Or.inr rfl, heq, (Option.some.inj h).symm⟩
  · cases h

/-- What leads from a key to its value begins with a blank, a separator or a brace. -/
theorem not_isBareChar_of_fieldValue? {s start : List Char} (h : fieldValue? s = some start) :
    ∀ c, s.head? = some c → isBareChar c = false := by
  intro c hc
  obtain ⟨t, rfl⟩ := List.head?_eq_some_iff.1 hc
  cases hblank : isInlineBlank c with
  | true => exact not_isBareChar_of_isBlank (isBlank_of_isInlineBlank hblank)
  | false =>
    have hself : afterBlanks (c :: t) = c :: t :=
      List.dropWhile_cons_of_neg (by simp [hblank])
    rcases fieldValue?_eq_some h with ⟨r, hr, _⟩ | ⟨d, r, rfl | rfl, hr, _⟩
    all_goals
      rw [hself] at hr
      cases hr
      decide

/-- What leads from a key to its value, with another value behind it. An object needs no separator,
so what is put in its place begins with a brace too. -/
theorem fieldValue?_replace {b start start' : List Char} (h : fieldValue? (b ++ start) = some start)
    (hblanks : afterBlanks start' = start')
    (hbrace : start.head? = some '{' → start'.head? = some '{') :
    fieldValue? (b ++ start') = some start' := by
  rcases fieldValue?_eq_some h with ⟨r, hr, rfl⟩ | ⟨d, r, hd, hr, hstart⟩
  · obtain ⟨t, rfl⟩ := List.head?_eq_some_iff.1 (hbrace rfl)
    exact fieldValue?_of_brace ((afterBlanks_replace hr _).trans hblanks)
  · -- The separator stands before the value, between two runs of blanks.
    obtain ⟨b₁, hb₁⟩ := afterBlanks_suffix (b ++ start)
    obtain ⟨b₂, hb₂⟩ := afterBlanks_suffix r
    rw [← hstart] at hb₂
    rw [hr, ← hb₂] at hb₁
    obtain rfl : b = b₁ ++ d :: b₂ := by
      apply List.append_cancel_right (hb₁.symm.trans _)
      simp
    have hmiddle : b₁ ++ d :: b₂ ++ start = b₁ ++ (d :: r) := by simp [hb₂]
    have hmiddle' : b₁ ++ d :: b₂ ++ start' = b₁ ++ (d :: (b₂ ++ start')) := by simp
    rw [hmiddle] at hr
    rw [← hb₂] at hstart
    have hvalue : afterBlanks (b₂ ++ start') = start' :=
      (afterBlanks_replace hstart.symm start').trans hblanks
    have hsolid : afterBlanks ([d] ++ r) = [d] ++ r := by
      rw [List.singleton_append, ← hr, afterBlanks_afterBlanks, hr]
    have hseparator : afterBlanks (b₁ ++ (d :: (b₂ ++ start'))) = d :: (b₂ ++ start') := by
      rw [afterBlanks_replace hr]
      exact afterBlanks_append_of_ne_nil (List.cons_ne_nil d []) hsolid _
    rw [hmiddle', fieldValue?_of_separator hseparator hd, hvalue]

end LeaderKey.Grammar
