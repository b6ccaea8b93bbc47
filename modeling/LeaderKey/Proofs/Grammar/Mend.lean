import LeaderKey.Proofs.Grammar.NextLine
import LeaderKey.Proofs.Grammar.Written

/-!
# What stands before a fault is right

A reader that refuses a text gives the text from the place where it is wrong. Nothing before that
place is wrong: the text up to there begins a text that the reader takes. The rest of such a text
closes what is open at the place: a quote, a key, a field, a comment, a bracket or a brace. Every
reader has its lemma here, which says what it needs there; `document_mends` is the one for whole
texts.
-/

namespace LeaderKey.Grammar

open LeaderKey.Text

/-- The text before the fault begins some text that the reader takes. What is put behind it begins
with no slash, so it makes no comment mark of a slash before it. -/
def Mends (takes : List Char → Prop) (s : List Char) (fault : Fault) : Prop :=
  ∃ good more, s = good ++ fault.rest ∧ takes (good ++ more) ∧ more.head? ≠ some '/'

/-- A mapped result that is a fault comes from that fault. -/
theorem of_map_eq_error {α β : Type} {r : Except Fault α} {f : α → β} {fault : Fault}
    (h : r.map f = .error fault) : r = .error fault := by
  cases r with
  | error fault' => exact congrArg Except.error (Except.error.inj h)
  | ok a => cases h

/-! ## Quotes -/

/-- What closes a quote: a character, so that the quote is not empty, and a quotation mark. -/
def quoteEnd : List Char := ['x', '"']

/-- A quoted text is right up to its fault, and a quotation mark closes it there. -/
theorem quotedBody_mends {s : List Char} {fault : Fault} (h : quotedBody s = .error fault) :
    ∃ good text, s = good ++ fault.rest ∧ quotedBody (good ++ quoteEnd) = .ok (text, []) := by
  have hend : quotedBody quoteEnd = .ok (['x'], []) := by decide +kernel
  fun_induction quotedBody s with
  | case1 =>
    cases h
    exact ⟨[], ['x'], rfl, hend⟩
  | case2 => cases h
  | case3 =>
    cases h
    exact ⟨[], ['x'], rfl, hend⟩
  | case4 r scalar after he _ _ ih =>
    obtain ⟨good, text, hgood, htext⟩ := ih (of_map_eq_error h)
    obtain ⟨e, rfl⟩ := (escape_suffix he).1
    refine ⟨'\\' :: (e ++ good), scalar :: text, by simp [hgood], ?_⟩
    rw [List.cons_append, List.append_assoc, quotedBody_backslash, escape_replace he]
    dsimp only
    rw [htext]
    rfl
  | case5 =>
    cases h
    exact ⟨[], ['x'], rfl, hend⟩
  | case6 c r hquote hline hescape ih =>
    obtain ⟨good, text, hgood, htext⟩ := ih (of_map_eq_error h)
    refine ⟨c :: good, c :: text, by simp [hgood], ?_⟩
    rw [List.cons_append, quotedBody, if_neg hquote, if_neg hline, if_neg hescape, htext]
    rfl

/-! ## Scalars -/

/-- A token is right up to its fault. An unclosed triple quote is refused as a whole; any other
quote is closed where it is wrong. -/
theorem token_mends {s : List Char} {fault : Fault} (h : token s = .error fault) :
    s = fault.rest ∨ ∃ good t, s = '"' :: good ++ fault.rest ∧
      token ('"' :: good ++ quoteEnd) = .ok (some (t, [])) := by
  unfold token at h
  split at h
  · split at h
    · cases h
    · cases h
      exact Or.inl rfl
  · rename_i r _
    obtain ⟨good, text, hgood, htext⟩ := quotedBody_mends (of_map_eq_error h)
    refine Or.inr ⟨good, .quoted text, by rw [hgood, List.cons_append], ?_⟩
    have hhead : (good ++ quoteEnd).head? ≠ some '"' := by
      intro hquote
      obtain ⟨u, hu⟩ := List.head?_eq_some_iff.1 hquote
      rw [hu, quotedBody, if_pos rfl] at htext
      -- The quote would close at once and leave what was put there to close it.
      have hnil : u = [] := congrArg Prod.snd (Except.ok.inj htext)
      have hlength := congrArg List.length hu
      rw [hnil, List.length_append] at hlength
      simp [quoteEnd] at hlength
    rw [List.cons_append, token_of_quote hhead, htext]
    rfl
  · split at h
    · cases h
    · cases h

/-- A token before tokens with a fault, with the mended tokens behind it. -/
theorem token_replace_mends {k rest good more bad : List Char} {t : Token}
    (ht : token (k ++ rest) = .ok (some (t, rest))) (hmore : token (afterBlanks rest) ≠ .ok none)
    (hgood : rest = good ++ bad) (hblank : good = [] → more.head? = some ' ') :
    token (k ++ (good ++ more)) = .ok (some (t, good ++ more)) := by
  by_cases hnil : good = []
  · -- A blank stands behind the token now, and it ends a word as well as a quote.
    obtain ⟨m, rfl⟩ := List.head?_eq_some_iff.1 (hblank hnil)
    subst hnil
    refine token_replace ht nofun (fun _ => ?_) nofun
    rw [List.nil_append, bareWord_eq_nil (by decide)]
  · refine token_replace_of_head ht (by simp [hgood, hnil]) hmore ?_
    rw [hgood, List.head?_append_of_ne_nil _ hnil, List.head?_append_of_ne_nil _ hnil]

/-- A word behind blanks. -/
theorem moreTokens_word {b : List Char} (hb : ∀ c ∈ b, isInlineBlank c = true) :
    ∃ ts, moreTokens (b ++ [' ', '1']) = .ok (ts, []) := by
  have hword : token (afterBlanks (b ++ [' ', '1'])) = .ok (some (.bare ['1'], [])) := by
    rw [afterBlanks_append_blanks hb]
    decide +kernel
  exact ⟨_, moreTokens_cons hword moreTokens_nil⟩

/-- The tokens behind a first one are right up to their fault. What is put behind the good part
begins with a blank if there is no good part, so it does not make the first token longer. -/
theorem moreTokens_mends {s : List Char} {fault : Fault} (h : moreTokens s = .error fault) :
    ∃ good more, s = good ++ fault.rest ∧ (∃ ts, moreTokens (good ++ more) = .ok (ts, [])) ∧
      more.head? ≠ some '/' ∧ (good = [] → more.head? = some ' ') := by
  fun_induction moreTokens s with
  | case1 s fault' ht =>
    cases h
    obtain ⟨b, hblanks, hsplit⟩ := exists_blanks s
    rcases token_mends ht with hwhole | ⟨good, t, hgood, htoken⟩
    · -- The token that cannot be read is left out, and a word stands in its place.
      exact ⟨b, [' ', '1'], by rw [← hwhole, hsplit], moreTokens_word hblanks, by decide,
        fun _ => rfl⟩
    · have hbehind : token (afterBlanks (b ++ '"' :: good ++ quoteEnd)) = .ok (some (t, [])) := by
        rw [List.append_assoc, afterBlanks_append_blanks hblanks]
        exact htoken
      refine ⟨b ++ '"' :: good, quoteEnd, ?_, ⟨_, moreTokens_cons hbehind moreTokens_nil⟩,
        by decide, fun hnil => ?_⟩
      · rw [List.append_assoc, ← hgood, hsplit]
      · simp at hnil
  | case2 => cases h
  | case3 s t r ht ih =>
    have hr : moreTokens r = .error fault := of_map_eq_error h
    obtain ⟨good, more, hgood, ⟨ts, hts⟩, hslash, hblank⟩ := ih hr
    have hlonger : token (afterBlanks r) ≠ .ok none := by
      intro hnone
      rw [moreTokens_eq, hnone] at hr
      cases hr
    obtain ⟨k, hk⟩ := (token_suffix ht).1
    have hkne : k ≠ [] := ne_nil_of_length_lt (token_suffix ht).2 hk
    obtain ⟨b, hblanks, hsplit⟩ := exists_blanks s
    have hself : afterBlanks (k ++ r) = k ++ r := by rw [hk, afterBlanks_afterBlanks]
    rw [← hk] at ht hsplit
    have hbehind : token (afterBlanks (b ++ (k ++ (good ++ more)))) =
        .ok (some (t, good ++ more)) := by
      rw [afterBlanks_append_blanks hblanks, afterBlanks_append_of_ne_nil hkne hself]
      exact token_replace_mends ht hlonger hgood hblank
    have hassoc : b ++ (k ++ good) ++ more = b ++ (k ++ (good ++ more)) := by simp
    refine ⟨b ++ (k ++ good), more, ?_, ?_, hslash, fun hnil => ?_⟩
    · rw [← hsplit, hgood]
      simp
    · rw [hassoc]
      exact ⟨_, moreTokens_cons hbehind hts⟩
    · simp [hkne] at hnil

/-- A scalar is right up to its fault. -/
theorem scalar_mends {s : List Char} {fault : Fault} (h : scalar s = .error fault) :
    Mends (fun t => ∃ v, scalar t = .ok (some (v, []))) s fault := by
  unfold scalar at h
  split at h
  · rename_i fault' ht
    cases h
    rcases token_mends ht with hwhole | ⟨good, t, hgood, htoken⟩
    · refine ⟨[], ['1'], hwhole, ⟨.number "1", ?_⟩, by decide⟩
      decide +kernel
    · exact ⟨'"' :: good, quoteEnd, hgood, ⟨_, scalar_eq_some htoken moreTokens_nil⟩, by decide⟩
  · cases h
  · rename_i first r ht
    have hr : moreTokens r = .error fault := of_map_eq_error h
    obtain ⟨good, more, hgood, ⟨ts, hts⟩, hslash, hblank⟩ := moreTokens_mends hr
    have hlonger : token (afterBlanks r) ≠ .ok none := by
      intro hnone
      rw [moreTokens_eq, hnone] at hr
      cases hr
    obtain ⟨k, rfl⟩ := (token_suffix ht).1
    refine ⟨k ++ good, more, by rw [hgood, List.append_assoc], ?_, hslash⟩
    rw [List.append_assoc]
    exact ⟨_, scalar_eq_some (token_replace_mends ht hlonger hgood hblank) hts⟩

/-! ## Key paths -/

/-- What closes a quoted key and leads to a value. -/
def keyEnd : List Char := quoteEnd ++ [':', '1']

/-- A key is right up to its fault, which is in a quote. -/
theorem key_mends {s : List Char} {fault : Fault} (h : key s = .error fault) :
    ∃ good name, s = '"' :: good ++ fault.rest ∧
      key ('"' :: good ++ keyEnd) = .ok (some (name, [':', '1'])) := by
  unfold key at h
  split at h
  · rename_i r
    obtain ⟨good, text, hgood, htext⟩ := quotedBody_mends (of_map_eq_error h)
    have hquote : quotedBody (good ++ quoteEnd ++ [':', '1']) = .ok (text, [':', '1']) := by
      rw [← List.append_nil (good ++ quoteEnd)] at htext
      exact quotedBody_replace htext _
    refine ⟨good, text, by rw [hgood, List.cons_append], ?_⟩
    show (quotedBody (good ++ keyEnd)).map some = _
    rw [keyEnd, ← List.append_assoc, hquote]
    rfl
  · split at h
    · cases h
    · cases h

/-- The keys behind a first one are right up to their fault. -/
theorem moreKeys_mends {s : List Char} {fault : Fault} (h : moreKeys s = .error fault) :
    ∃ good names, s = '.' :: good ++ fault.rest ∧
      moreKeys ('.' :: good ++ keyEnd) = .ok (names, [':', '1']) := by
  fun_induction moreKeys s with
  | case1 s fault' hk =>
    cases h
    obtain ⟨good, name, hgood, hname⟩ := key_mends hk
    refine ⟨'"' :: good, [String.ofList name], by rw [hgood]; rfl, ?_⟩
    exact moreKeys_cons hname (moreKeys_of_not_dot (by decide))
  | case2 => cases h
  | case3 s name r hk ih =>
    obtain ⟨good, names, hgood, hnames⟩ := ih (of_map_eq_error h)
    obtain ⟨k, rfl⟩ := (key_suffix hk).1
    have hname : key (k ++ ('.' :: good ++ keyEnd)) = .ok (some (name, '.' :: good ++ keyEnd)) :=
      key_replace hk (List.takeWhile_cons_of_neg (by decide))
    refine ⟨k ++ '.' :: good, String.ofList name :: names, by simp [hgood], ?_⟩
    have hassoc : '.' :: (k ++ '.' :: good) ++ keyEnd = '.' :: (k ++ ('.' :: good ++ keyEnd)) := by
      simp
    rw [hassoc]
    exact moreKeys_cons hname hnames
  | case4 => cases h

/-- A key path is right up to its fault. -/
theorem keyPath_mends {s : List Char} {fault : Fault} (h : keyPath s = .error fault) :
    ∃ good path, s = good ++ fault.rest ∧
      keyPath (good ++ keyEnd) = .ok (some (path, [':', '1'])) := by
  unfold keyPath at h
  split at h
  · rename_i fault' hk
    cases h
    obtain ⟨good, name, hgood, hname⟩ := key_mends hk
    exact ⟨'"' :: good, _, hgood, keyPath_eq_some hname (moreKeys_of_not_dot (by decide))⟩
  · cases h
  · rename_i name r hk
    obtain ⟨good, names, hgood, hnames⟩ := moreKeys_mends (of_map_eq_error h)
    obtain ⟨k, rfl⟩ := (key_suffix hk).1
    have hname : key (k ++ ('.' :: good ++ keyEnd)) = .ok (some (name, '.' :: good ++ keyEnd)) :=
      key_replace hk (List.takeWhile_cons_of_neg (by decide))
    refine ⟨k ++ '.' :: good, String.ofList name :: names, by simp [hgood], ?_⟩
    rw [List.append_assoc]
    exact keyPath_eq_some hname hnames

/-! ## Where the readers of phrases fail -/

/-- A value that is refused is an object, a list, a scalar with a fault, or nothing of these. -/
theorem value_eq_error {s : List Char} {fault : Fault} (h : value s = .error fault) :
    (∃ t, s = '{' :: t ∧ fields .brace t = .error fault) ∨
      (∃ t, s = '[' :: t ∧ items t = .error fault) ∨
      s.head? ≠ some '{' ∧ (scalar s = .error fault ∨ fault = ⟨.expectedValue, s⟩) := by
  rw [value_eq] at h
  split at h
  · exact Or.inl ⟨_, rfl, of_map_eq_error h⟩
  · exact Or.inr (Or.inl ⟨_, rfl, of_map_eq_error h⟩)
  · rename_i hbrace _
    refine Or.inr (Or.inr ⟨fun hhead => ?_, ?_⟩)
    · obtain ⟨t, ht⟩ := List.head?_eq_some_iff.1 hhead
      exact hbrace t ht
    · split at h
      · rename_i hscalar
        cases h
        exact Or.inl hscalar
      · cases h
        exact Or.inr rfl
      · cases h

/-- A field is refused in its key path, before it, behind it, or in its value. -/
theorem field_eq_error {s : List Char} {fault : Fault} (h : field s = .error fault) :
    keyPath s = .error fault ∨ fault = ⟨.expectedKey, s⟩ ∨
      ∃ path after, keyPath s = .ok (some (path, after)) ∧
        (fault = ⟨.expectedSeparator, afterBlanks after⟩ ∨
          ∃ start, fieldValue? after = some start ∧ value start = .error fault) := by
  rw [field_eq] at h
  split at h
  · rename_i hpath
    cases h
    exact Or.inl hpath
  · cases h
    exact Or.inr (Or.inl rfl)
  · rename_i path after hpath
    refine Or.inr (Or.inr ⟨path, after, hpath, ?_⟩)
    split at h
    · cases h
      exact Or.inl rfl
    · rename_i start hstart
      exact Or.inr ⟨start, hstart, of_map_eq_error h⟩

/-- Elements are refused at the end of the text, in the first of them, behind it, or further on. -/
theorem elements_eq_error {α : Type} {closing : Closing} {unclosed wrongEnd : Problem}
    {first : List Char → Result α} {more : List Char → Result (List α)} {s : List Char}
    {fault : Fault} (h : elements closing unclosed wrongEnd first more s = .error fault) :
    ¬ closing.reached (afterGap s) = true ∧
      ((afterGap s = [] ∧ fault.rest = []) ∨ (afterGap s ≠ [] ∧ first (afterGap s) = .error fault) ∨
        ∃ x rest, first (afterGap s) = .ok (x, rest) ∧
          (fault = ⟨wrongEnd, afterGap rest⟩ ∨
            ∃ next, nextElement closing rest = some next ∧ more next = .error fault)) := by
  unfold elements at h
  split at h
  · cases h
  · rename_i hreached
    refine ⟨hreached, ?_⟩
    split at h
    · rename_i hempty
      cases h
      exact Or.inl ⟨List.isEmpty_iff.1 hempty, rfl⟩
    · rename_i hempty
      split at h
      · rename_i hfirst
        cases h
        exact Or.inr (Or.inl ⟨fun hnil => hempty (by rw [hnil]; rfl), hfirst⟩)
      · rename_i x rest hfirst
        refine Or.inr (Or.inr ⟨x, rest, hfirst, ?_⟩)
        split at h
        · cases h
          exact Or.inl rfl
        · rename_i next hnext
          exact Or.inr ⟨next, hnext, of_map_eq_error h⟩

/-- Items are refused at the end of the text, in the first item, behind it, or further on. -/
theorem items_eq_error {s : List Char} {fault : Fault} (h : items s = .error fault) :
    ¬ Closing.bracket.reached (afterGap s) = true ∧
      ((afterGap s = [] ∧ fault.rest = []) ∨ (afterGap s ≠ [] ∧ value (afterGap s) = .error fault) ∨
        ∃ v rest, value (afterGap s) = .ok (v, rest) ∧
          (fault = ⟨.expectedItemEnd, afterGap rest⟩ ∨
            ∃ next, nextElement .bracket rest = some next ∧ items next = .error fault)) :=
  elements_eq_error ((items_eq_elements s).symm.trans h)

/-- Fields are refused at the end of the text, in the first field, behind it, or further on. -/
theorem fields_eq_error {closing : Closing} {s : List Char} {fault : Fault}
    (h : fields closing s = .error fault) :
    ¬ closing.reached (afterGap s) = true ∧
      ((afterGap s = [] ∧ fault.rest = []) ∨ (afterGap s ≠ [] ∧ field (afterGap s) = .error fault) ∨
        ∃ f rest, field (afterGap s) = .ok (f, rest) ∧
          (fault = ⟨.expectedFieldEnd, afterGap rest⟩ ∨
            ∃ next, nextElement closing rest = some next ∧
              fields closing next = .error fault)) :=
  elements_eq_error ((fields_eq_elements closing s).symm.trans h)

/-! ## Closing what is open -/

/-- A new line, which ends a comment and an element, and a closing. -/
def Closing.onLine (closing : Closing) : List Char := '\n' :: closing.text

/-- A line begins with no slash. -/
theorem Closing.head?_onLine (closing : Closing) : closing.onLine.head? ≠ some '/' := by
  simp [Closing.onLine]

/-- What begins with no slash begins with none when it is closed on the next line. -/
theorem head?_append_onLine {more : List Char} (h : more.head? ≠ some '/') (closing : Closing) :
    (more ++ closing.onLine).head? ≠ some '/' := by
  cases more with
  | nil => exact closing.head?_onLine
  | cons c m => exact h

/-- On a line below a gap that runs to the end of the text stands the closing. -/
theorem afterGap_append_onLine {s : List Char} (h : afterGap s = []) (closing : Closing) :
    afterGap (s ++ closing.onLine) = closing.text := by
  rw [Closing.onLine, afterGap_append_of_nil _ h, closing.afterGap_text]

/-- On a line of its own the closing may stand behind an element. -/
theorem nextElement_onLine (closing : Closing) :
    nextElement closing closing.onLine = some closing.text := by
  cases closing <;> decide +kernel

/-- A closing on a line of its own may stand behind an element, with the gap that stands there. -/
theorem exists_nextElement_onLine (closing : Closing) (rest : List Char) :
    ∃ gap, rest = gap ++ afterGap rest ∧ EndsLike rest (gap ++ closing.onLine) ∧
      nextElement closing (gap ++ closing.onLine) = some closing.text := by
  obtain ⟨g, hg⟩ := afterGap_suffix rest
  have hgap : afterGap (g ++ closing.onLine) = closing.text ∧
      crossesLine (g ++ closing.onLine) = true := by
    have hline : crossesLine closing.onLine = true := by cases closing <;> decide +kernel
    have hlineGap : afterGap closing.onLine = closing.text := by cases closing <;> decide +kernel
    by_cases hnil : afterGap rest = []
    · rw [hnil, List.append_nil] at hg
      rw [hg]
      exact ⟨afterGap_append_onLine hnil closing, crossesLine_append_of_nil _ hnil⟩
    · have hover : afterGap (g ++ afterGap rest) = afterGap rest := by rw [hg]
      rw [afterGap_replace hover hnil, crossesLine_replace hover hnil, hlineGap, hline,
        Bool.or_true]
      exact ⟨rfl, rfl⟩
  have hcomma : closing.text.head? ≠ some ',' := by cases closing <;> decide
  have hnext : nextElement closing (g ++ closing.onLine) = some closing.text := by
    rw [nextElement_of_not_comma (by rw [hgap.1]; exact hcomma), hgap.1, hgap.2, Bool.true_or,
      if_pos rfl]
  refine ⟨g, hg.symm, ⟨fun _ => ends_of_nextElement hnext, ?_⟩, hnext⟩
  cases g with
  | nil => nofun
  | cons c g =>
    rw [← hg]
    exact id

/-! ## Elements -/

variable {closing : Closing} {p : Phrase} {s rest next good more bad : List Char}

/-- Where the first element is wrong, it is mended and closed on the next line. -/
theorem Reads.first_mended (h : Reads p (good ++ more) []) (hp : p.HasEnd)
    (hgap : afterGap s = good ++ bad) (hs : afterGap s ≠ []) (hslash : more.head? ≠ some '/')
    (hself : good = [] → afterGap (more ++ closing.onLine) = more ++ closing.onLine) :
    ∃ front, s = front ++ bad ∧
      Reads p (afterGap (front ++ (more ++ closing.onLine))) closing.onLine := by
  obtain ⟨g, hg⟩ := afterGap_suffix s
  have hread : Reads p (good ++ (more ++ closing.onLine)) closing.onLine := by
    rw [← List.append_assoc]
    exact h.append_line closing.text hp
  have hfirst : afterGap (good ++ (more ++ closing.onLine)) = good ++ (more ++ closing.onLine) := by
    by_cases hnil : good = []
    · rw [hnil]
      exact hself hnil
    · have hover : afterGap (good ++ bad) = good ++ bad := by rw [← hgap, afterGap_afterGap]
      exact afterGap_append_eq_self hnil hover fun hhead =>
        absurd hhead (head?_append_onLine hslash closing)
  have hover : afterGap (g ++ afterGap s) = afterGap s := by rw [hg]
  refine ⟨g ++ good, by rw [List.append_assoc, ← hgap, hg], ?_⟩
  rw [List.append_assoc, afterGap_replace hover hs, hfirst]
  exact hread

/-- Where nothing ends an element, a new line does. -/
theorem Reads.last_mended (h : Reads p (afterGap s) rest) (hp : p.HasEnd) (closing : Closing) :
    ∃ front mid, s = front ++ afterGap rest ∧ Reads p (afterGap (front ++ closing.onLine)) mid ∧
      nextElement closing mid = some closing.text := by
  obtain ⟨front, hs, hagain⟩ := h.front hp
  obtain ⟨gap, hgap, hlike, hnext⟩ := exists_nextElement_onLine closing rest
  refine ⟨front ++ gap, gap ++ closing.onLine, ?_, ?_, hnext⟩
  · rw [List.append_assoc, ← hgap]
    exact hs
  · rw [List.append_assoc]
    exact hagain _ hlike

/-- Where a later element is wrong, what is before it stays as it is. -/
theorem Reads.later_mended (h : Reads p (afterGap s) rest) (hp : p.HasEnd)
    (hnext : nextElement closing rest = some next) (hgood : next = good ++ bad)
    (hreached : ¬ closing.reached (afterGap next) = true) (hslash : more.head? ≠ some '/')
    (hcomma : (afterGap (good ++ more)).head? ≠ some ',') :
    ∃ front more' mid start, s = front ++ bad ∧ more'.head? ≠ some '/' ∧
      Reads p (afterGap (front ++ more')) mid ∧ nextElement closing mid = some start ∧
      (afterGap start = afterGap (good ++ more) ∨ afterGap start = closing.text) := by
  obtain ⟨front, hs, hagain⟩ := h.front hp
  by_cases hnil : next = []
  · -- The text ends where the element is missing, maybe in a comment, so the closing comes below.
    subst hnil
    have hcommaText : closing.text.head? ≠ some ',' := by cases closing <;> decide
    obtain ⟨start, hstart, hgap⟩ :=
      nextElement_append_of_nil hnext closing.afterGap_text hcommaText
    have hbad : bad = [] := (List.append_eq_nil_iff.1 hgood.symm).2
    refine ⟨front ++ rest, closing.onLine, rest ++ closing.onLine, start, ?_, closing.head?_onLine,
      ?_, hstart, Or.inr hgap⟩
    · rw [hbad, List.append_nil]
      exact hs
    · rw [List.append_assoc]
      exact hagain _ (endsLike_append_line _ rest)
  · -- What ends the element stays as it is, and the mended text follows that.
    have hslash' : (good ++ more).head? = some '/' → next.head? = some '/' := by
      intro hhead
      cases good with
      | nil => exact absurd hhead hslash
      | cons c g =>
        rw [hgood]
        exact hhead
    have hreached' : closing.reached next = true →
        closing.reached (afterGap (good ++ more)) = true := by
      intro hclosing
      rw [afterGap_of_reached hclosing] at hreached
      exact absurd hclosing hreached
    obtain ⟨n, start, hrest, hlike, hstart, hgap⟩ :=
      exists_nextElement_replace hnext hnil hslash' hreached' hcomma
    refine ⟨front ++ (n ++ good), more, n ++ (good ++ more), start, ?_, hslash, ?_, hstart,
      Or.inl hgap⟩
    · rw [hs, hrest, hgood]
      simp
    · have hassoc : front ++ (n ++ good) ++ more = front ++ (n ++ (good ++ more)) := by simp
      rw [hassoc]
      exact hagain _ hlike

/-! ## Phrases -/

/-- Behind the good part of a key path and blanks, a separator and a value make a field. -/
theorem reads_field_one {s after : List Char} {path : List String}
    (h : keyPath s = .ok (some (path, after))) (hafter : afterBlanks after = [':', '1']) :
    Reads (.field ⟨path, .number "1"⟩) s [] := by
  have hstart : fieldValue? after = some ['1'] := fieldValue?_of_separator hafter (Or.inl rfl)
  exact .field h hstart (.scalar (by decide +kernel))

mutual

/-- A value is right up to its fault. The fault of an object is behind its brace. -/
theorem value_mends {s : List Char} {fault : Fault} (h : value s = .error fault) :
    ∃ good more, s = good ++ fault.rest ∧ (∃ v, Reads (.value v) (good ++ more) []) ∧
      more.head? ≠ some '/' ∧ (s.head? = some '{' → good.head? = some '{') := by
  rcases value_eq_error h with ⟨t, hs, hf⟩ | ⟨t, hs, hf⟩ | ⟨hbrace, hf | hf⟩
  · have hlt : t.length < s.length := by rw [hs]; exact Nat.lt_succ_self _
    obtain ⟨good, more, hgood, ⟨fs, hfs⟩, hslash⟩ := fields_mends hf
    exact ⟨'{' :: good, more, by rw [hs, hgood]; rfl, ⟨_, .object hfs⟩, hslash, fun _ => rfl⟩
  · have hlt : t.length < s.length := by rw [hs]; exact Nat.lt_succ_self _
    obtain ⟨good, more, hgood, ⟨vs, hvs⟩, hslash⟩ := items_mends hf
    -- A text that begins with a bracket begins with no brace.
    refine ⟨'[' :: good, more, by rw [hs, hgood]; rfl, ⟨_, .list hvs⟩, hslash, fun hhead => ?_⟩
    rw [hs] at hhead
    cases hhead
  · obtain ⟨good, more, hgood, ⟨v, hv⟩, hslash⟩ := scalar_mends hf
    exact ⟨good, more, hgood, ⟨v, .scalar hv⟩, hslash, fun hhead => absurd hhead hbrace⟩
  · -- Nothing of a value stands here, so a number is put in its place.
    refine ⟨[], ['1'], by rw [hf]; rfl, ⟨.number "1", .scalar (by decide +kernel)⟩, by decide,
      fun hhead => absurd hhead hbrace⟩
termination_by 2 * s.length
decreasing_by all_goals omega

/-- A field is right up to its fault. -/
theorem field_mends {s : List Char} {fault : Fault} (h : field s = .error fault) :
    Mends (fun t => ∃ f, Reads (.field f) t []) s fault := by
  rcases field_eq_error h with hf | hf | ⟨path, after, hpath, hf | ⟨start, hstart, hf⟩⟩
  · obtain ⟨good, path, hgood, hpath⟩ := keyPath_mends hf
    exact ⟨good, keyEnd, hgood, ⟨_, reads_field_one hpath rfl⟩, by decide⟩
  · have hkey : keyPath ['k', ':', '1'] = .ok (some (["k"], [':', '1'])) := by decide +kernel
    exact ⟨[], ['k', ':', '1'], by rw [hf]; rfl, ⟨_, reads_field_one hkey rfl⟩, by decide⟩
  · -- Behind the key path and the blanks stands a separator now.
    obtain ⟨k, hk⟩ := (keyPath_suffix hpath).1
    obtain ⟨b, hblanks, hb⟩ := exists_blanks after
    rw [← hk] at hpath
    have hhead : ∀ c, (b ++ [':', '1']).head? = some c → isBareChar c = false := by
      intro c hc
      cases b with
      | nil =>
        obtain rfl := Option.some.inj hc
        decide
      | cons d b =>
        obtain rfl := Option.some.inj hc
        exact not_isBareChar_of_isBlank (isBlank_of_isInlineBlank (hblanks d List.mem_cons_self))
    refine ⟨k ++ b, [':', '1'], ?_, ⟨⟨path, .number "1"⟩, ?_⟩, by decide⟩
    · rw [hf, List.append_assoc, hb, hk]
    · rw [List.append_assoc]
      exact reads_field_one (keyPath_replace hpath hhead) (afterBlanks_append_blanks hblanks _)
  · -- The key path and the separator stay, and the mended value stands behind them.
    have hshorter := (keyPath_suffix hpath).2
    have hle := (fieldValue?_suffix hstart).length_le
    obtain ⟨good, more, hgood, ⟨v, hv⟩, hslash, hbrace⟩ := value_mends hf
    obtain ⟨k, hk⟩ := (keyPath_suffix hpath).1
    obtain ⟨b, hb⟩ := fieldValue?_suffix hstart
    rw [← hb] at hstart hk
    rw [← hk, ← hb] at hpath
    have hstart' : fieldValue? (b ++ (good ++ more)) = some (good ++ more) := by
      refine fieldValue?_replace hstart (afterBlanks_of_afterGap (afterGap_of_value hv.isRead)) ?_
      intro hhead
      obtain ⟨t, ht⟩ := List.head?_eq_some_iff.1 (hbrace hhead)
      rw [ht]
      rfl
    have hpath' := keyPath_replace hpath (not_isBareChar_of_fieldValue? hstart')
    refine ⟨k ++ (b ++ good), more, by rw [← hk, hgood]; simp, ⟨⟨path, v⟩, ?_⟩, hslash⟩
    have hassoc : k ++ (b ++ good) ++ more = k ++ (b ++ (good ++ more)) := by simp
    rw [hassoc]
    exact .field hpath' hstart' hv
termination_by 2 * s.length
decreasing_by omega

/-- The items of a list are right up to their fault. -/
theorem items_mends {s : List Char} {fault : Fault} (h : items s = .error fault) :
    Mends (fun t => ∃ vs, Reads (.items vs) t []) s fault := by
  obtain ⟨_, ⟨hgap, hrest⟩ | ⟨hgap, hf⟩ | ⟨v, rest, hv, hf | ⟨next, hnext, hf⟩⟩⟩ :=
    items_eq_error h
  · -- The text ends in the list, so the bracket is put on a line below.
    refine ⟨s, Closing.bracket.onLine, by rw [hrest, List.append_nil], ⟨[], ?_⟩, by decide⟩
    exact reads_items_text (afterGap_append_onLine hgap _)
  · -- The first item is wrong: it is mended, and the bracket is put below it.
    have hle := afterGap_length_le s
    obtain ⟨good, more, hgood, ⟨v, hv⟩, hslash, _⟩ := value_mends hf
    have hself : good = [] → afterGap (more ++ Closing.bracket.onLine) =
        more ++ Closing.bracket.onLine := by
      rintro rfl
      exact afterGap_of_value (hv.append_line Closing.bracket.text trivial).isRead
    obtain ⟨front, hs, hread⟩ := hv.first_mended trivial hgood hgap hslash hself
    refine ⟨front, more ++ Closing.bracket.onLine, hs, ⟨[v], ?_⟩, head?_append_onLine hslash _⟩
    exact .itemsCons hread (nextElement_onLine _) (reads_items_text rfl)
  · -- Nothing ends the item, so a new line does.
    obtain ⟨front, mid, hs, hread, hnext⟩ := (reads_of_value hv).last_mended trivial .bracket
    refine ⟨front, Closing.bracket.onLine, by rw [hf]; exact hs, ⟨[v], ?_⟩, by decide⟩
    exact .itemsCons hread hnext (reads_items_text rfl)
  · -- A later item is wrong, and the first one is read before the mended ones as well.
    have hle := afterGap_length_le s
    have hlt := length_lt_of_value hv
    have hsuffix := (nextElement_suffix hnext).length_le
    obtain ⟨good, more, hgood, ⟨vs, hvs⟩, hslash⟩ := items_mends hf
    obtain ⟨front, more', mid, start, hs, hslash', hread, hstart, hgap⟩ :=
      (reads_of_value hv).later_mended trivial hnext hgood (items_eq_error hf).1 hslash
        hvs.head?_ne_comma_of_items
    rcases hgap with hgap | hgap
    · exact ⟨front, more', hs, ⟨v :: vs, .itemsCons hread hstart
        (hvs.items_of_afterGap_eq hgap.symm)⟩, hslash'⟩
    · exact ⟨front, more', hs, ⟨[v], .itemsCons hread hstart (reads_items_text hgap)⟩, hslash'⟩
termination_by 2 * s.length + 1
decreasing_by all_goals omega

/-- Fields are right up to their fault. -/
theorem fields_mends {closing : Closing} {s : List Char} {fault : Fault}
    (h : fields closing s = .error fault) :
    Mends (fun t => ∃ fs, Reads (.fields closing fs) t []) s fault := by
  obtain ⟨_, ⟨hgap, hrest⟩ | ⟨hgap, hf⟩ | ⟨f, rest, hfield, hf | ⟨next, hnext, hf⟩⟩⟩ :=
    fields_eq_error h
  · -- The text ends in the object, so the closing is put on a line below.
    refine ⟨s, closing.onLine, by rw [hrest, List.append_nil], ⟨[], ?_⟩, closing.head?_onLine⟩
    exact reads_fields_text (afterGap_append_onLine hgap _)
  · -- The first field is wrong: it is mended, and the closing is put below it.
    have hle := afterGap_length_le s
    obtain ⟨good, more, hgood, ⟨f, hfield⟩, hslash⟩ := field_mends hf
    have hself : good = [] → afterGap (more ++ closing.onLine) = more ++ closing.onLine := by
      rintro rfl
      refine afterGap_of_field (hfield.append_line closing.text trivial).isRead ?_
      rintro ⟨t, ht⟩
      exact head?_append_onLine hslash closing (by rw [← ht]; rfl)
    obtain ⟨front, hs, hread⟩ := hfield.first_mended trivial hgood hgap hslash hself
    refine ⟨front, more ++ closing.onLine, hs, ⟨[f], ?_⟩, head?_append_onLine hslash _⟩
    exact .fieldsCons hread (nextElement_onLine _) (reads_fields_text closing.afterGap_text)
  · -- Nothing ends the field, so a new line does.
    obtain ⟨front, mid, hs, hread, hnext⟩ := (reads_of_field hfield).last_mended trivial closing
    refine ⟨front, closing.onLine, by rw [hf]; exact hs, ⟨[f], ?_⟩, closing.head?_onLine⟩
    exact .fieldsCons hread hnext (reads_fields_text closing.afterGap_text)
  · -- A later field is wrong, and the first one is read before the mended ones as well.
    have hle := afterGap_length_le s
    have hlt := length_lt_of_field hfield
    have hsuffix := (nextElement_suffix hnext).length_le
    obtain ⟨good, more, hgood, ⟨fs, hfs⟩, hslash⟩ := fields_mends hf
    obtain ⟨front, more', mid, start, hs, hslash', hread, hstart, hgap⟩ :=
      (reads_of_field hfield).later_mended trivial hnext hgood (fields_eq_error hf).1 hslash
        hfs.head?_ne_comma_of_fields
    rcases hgap with hgap | hgap
    · exact ⟨front, more', hs, ⟨f :: fs, .fieldsCons hread hstart
        (hfs.of_afterGap_eq hgap.symm)⟩, hslash'⟩
    · exact ⟨front, more', hs, ⟨[f], .fieldsCons hread hstart (reads_fields_text hgap)⟩, hslash'⟩
termination_by 2 * s.length + 1
decreasing_by all_goals omega

end

/-! ## Whole texts -/

/-- A whole text is refused in its fields, or behind the braces around them. -/
theorem document_eq_error {s : List Char} {fault : Fault} (h : document s = .error fault) :
    (∃ t, afterGap s = '{' :: t ∧ (fields .brace t = .error fault ∨
      ∃ fs after, fields .brace t = .ok (fs, after) ∧ afterGap after = fault.rest ∧
        fault.rest ≠ [])) ∨
      (afterGap s).head? ≠ some '{' ∧ fields .endOfText s = .error fault := by
  by_cases hbrace : (afterGap s).head? = some '{'
  · obtain ⟨t, ht⟩ := List.head?_eq_some_iff.1 hbrace
    refine Or.inl ⟨t, ht, ?_⟩
    simp only [document, ht] at h
    split at h
    · rename_i hfields
      cases h
      exact Or.inl hfields
    · rename_i fs after hfields
      split at h
      · cases h
      · rename_i left hnil
        cases h
        exact Or.inr ⟨fs, after, hfields, rfl, hnil⟩
  · rw [document_of_not_brace hbrace] at h
    exact Or.inr ⟨hbrace, of_map_eq_error h⟩

/-- A whole text is right up to its fault. -/
theorem document_mends {s : List Char} {fault : Fault} (h : document s = .error fault) :
    ∃ good more fs, s = good ++ fault.rest ∧ document (good ++ more) = .ok fs := by
  obtain ⟨t, ht, hf⟩ | ⟨_, hf⟩ := document_eq_error h
  · obtain ⟨g, hg⟩ := afterGap_suffix s
    rw [ht] at hg
    have hover : afterGap (g ++ '{' :: t) = '{' :: t := by rw [hg, ht]
    have hopen (u : List Char) : afterGap (g ++ '{' :: u) = '{' :: u := by
      rw [afterGap_replace hover (List.cons_ne_nil _ _)]
      exact afterGap_eq_self_iff.2 ⟨by decide, rfl⟩
    rcases hf with hf | ⟨fs, after, hfields, hrest, hnil⟩
    · obtain ⟨good, more, hgood, ⟨fs, hfs⟩, _⟩ := fields_mends hf
      refine ⟨g ++ '{' :: good, more, fs, by rw [← hg, hgood]; simp, ?_⟩
      rw [List.append_assoc]
      exact document_of_brace (hopen _) hfs rfl
    · -- The braces have been closed, and only a gap follows before the fault.
      have hread := reads_of_fields hfields
      obtain ⟨u, hu⟩ := (hread.suffix).1
      obtain ⟨b, hb, hlike, _⟩ := exists_nextElement_onLine .endOfText after
      have hover' : afterGap (b ++ afterGap after) = afterGap after := by rw [← hb]
      have hend : afterGap (b ++ Closing.endOfText.onLine) = [] :=
        afterGap_replace hover' (by rw [hrest]; exact hnil) _
      refine ⟨g ++ '{' :: (u ++ b), Closing.endOfText.onLine, fs, ?_, ?_⟩
      · calc s = g ++ '{' :: (u ++ after) := by rw [hu, hg]
          _ = g ++ '{' :: (u ++ (b ++ afterGap after)) := by rw [← hb]
          _ = g ++ '{' :: (u ++ b) ++ fault.rest := by rw [hrest]; simp
      · have hassoc : g ++ '{' :: (u ++ b) ++ Closing.endOfText.onLine =
            g ++ '{' :: (u ++ (b ++ Closing.endOfText.onLine)) := by simp
        rw [hassoc]
        exact document_of_brace (hopen _) (hread.replace nofun hu.symm hlike) hend
  · obtain ⟨good, more, hgood, ⟨fs, hfs⟩, _⟩ := fields_mends hf
    have hread : fields .endOfText (good ++ more) = .ok (fs, []) := hfs.isRead
    refine ⟨good, more, fs, hgood, ?_⟩
    rw [document_of_not_brace, hread]
    · rfl
    · exact hfs.head?_ne_of_fields (by decide) (by decide) fun t => by simp [Closing.reached]

end LeaderKey.Grammar
