import LeaderKey.Proofs.Grammar.Tail.Token

/-!
# Another text behind a phrase

What stands behind a value, a field, a list or an object may be replaced: `Reads.replace` says that
the phrase is read again with the new text behind it, if the new text ends it where the old one did.
Braces and brackets end by themselves, and between elements a comma, a new line or the closing does,
so only the last scalar of the phrase can notice.
-/

namespace LeaderKey.Grammar

open LeaderKey.Text

/-! ## Values and closings -/

/-- There is no gap at the front of a value. -/
theorem afterGap_of_value {v : Value} {s rest : List Char} (h : value s = .ok (v, rest)) :
    afterGap s = s := by
  rcases value_eq_ok h with ⟨t, _, rfl, _⟩ | ⟨t, _, rfl, _⟩ | hscalar
  · exact afterGap_eq_self_iff.2 ⟨by decide, rfl⟩
  · exact afterGap_eq_self_iff.2 ⟨by decide, rfl⟩
  · cases s with
    | nil => rfl
    | cons c t =>
      unfold scalar at hscalar
      by_cases hquote : c = '"'
      · rw [hquote]
        exact afterGap_eq_self_iff.2 ⟨by decide, rfl⟩
      · have hhead : (c :: t).head? ≠ some '"' := by simpa using hquote
        rw [token_of_not_quote hhead, bareWord] at hscalar
        split at hscalar
        · cases hscalar
        · cases hscalar
        · rename_i first r hword
          by_cases hbare : (isBareChar c && !startsComment (c :: t)) = true
          · rw [Bool.and_eq_true, Bool.not_eq_true'] at hbare
            have hblank : isBlank c = false := by
              by_contra hblank
              rw [Bool.not_eq_false] at hblank
              rw [not_isBareChar_of_isBlank hblank] at hbare
              exact absurd hbare.1 (by decide)
            exact afterGap_eq_self_iff.2 ⟨hblank, hbare.2⟩
          · rw [if_neg hbare] at hword
            cases hword

/-- There are no blanks at the front of a text without a gap there. -/
theorem afterBlanks_of_afterGap {s : List Char} (h : afterGap s = s) : afterBlanks s = s := by
  cases s with
  | nil => rfl
  | cons c t =>
    cases hc : isInlineBlank c with
    | false => exact List.dropWhile_cons_of_neg (by simp [hc])
    | true =>
      have hline : c ≠ '\n' := by
        rintro rfl
        cases hc
      unfold afterGap at h
      rw [gap, if_neg hline, Bool.false_or, if_pos hc] at h
      exact absurd h (gap_ne_cons _ _ _)

/-- Whether a closing stands at the front of some text does not depend on what is put behind. -/
theorem reached_append {s : List Char} (h : s ≠ []) (closing : Closing) (more : List Char) :
    closing.reached (s ++ more) = closing.reached s := by
  cases s with
  | nil => contradiction
  | cons c rest => cases closing <;> rfl

/-- A closing that stands here is the end of the text, or one of two characters. -/
theorem reached_cases {closing : Closing} {s : List Char} (h : closing.reached s = true) :
    s = [] ∨ ∃ c t, s = c :: t ∧ (c = '}' ∨ c = ']') := by
  cases s with
  | nil => exact Or.inl rfl
  | cons c t =>
    right
    refine ⟨c, t, rfl, ?_⟩
    cases closing with
    | brace => exact Or.inl (by simpa [Closing.reached] using h)
    | bracket => exact Or.inr (by simpa [Closing.reached] using h)
    | endOfText => cases h

/-- A closing other than the end of the text is not empty. -/
theorem ne_nil_of_reached {closing : Closing} {s : List Char} (hclosing : closing ≠ .endOfText)
    (h : closing.reached s = true) : s ≠ [] := by
  rintro rfl
  cases closing with
  | brace => cases h
  | bracket => cases h
  | endOfText => exact hclosing rfl

/-- A closing that stands here is not behind a gap. -/
theorem afterGap_of_reached {closing : Closing} {s : List Char} (h : closing.reached s = true) :
    afterGap s = s := by
  obtain rfl | ⟨c, t, rfl, rfl | rfl⟩ := reached_cases h
  · rfl
  · exact afterGap_eq_self_iff.2 ⟨by decide, rfl⟩
  · exact afterGap_eq_self_iff.2 ⟨by decide, rfl⟩

/-- A closing stands at the front of some text whatever is behind that. -/
theorem reached_afterGap_of_append {closing : Closing} {i : List Char} (hi : i ≠ [])
    {rest : List Char} (h : closing.reached (i ++ rest) = true) (rest' : List Char) :
    closing.reached (afterGap (i ++ rest')) = true := by
  rw [reached_append hi] at h
  have h' : closing.reached (i ++ rest') = true := by rwa [reached_append hi]
  rwa [afterGap_of_reached h']

/-- A closing is no comma. -/
theorem head?_ne_comma_of_reached {closing : Closing} {s : List Char}
    (h : closing.reached s = true) : s.head? ≠ some ',' := by
  obtain rfl | ⟨c, t, rfl, rfl | rfl⟩ := reached_cases h
  · nofun
  · nofun
  · nofun

/-- A value begins with no comma. -/
theorem head?_ne_comma_of_value {v : Value} {s rest : List Char} (h : value s = .ok (v, rest)) :
    s.head? ≠ some ',' := by
  rcases value_eq_ok h with ⟨t, _, rfl, _⟩ | ⟨t, _, rfl, _⟩ | hscalar
  · nofun
  · nofun
  · intro hcomma
    obtain ⟨t, rfl⟩ := List.head?_eq_some_iff.1 hcomma
    rw [scalar_eq_none (by decide) (by decide)] at hscalar
    cases hscalar

/-- A closing that is no end of the text is one character long. -/
theorem skip_cons {closing : Closing} (hclosing : closing ≠ .endOfText) (c : Char)
    (s : List Char) : closing.skip (c :: s) = s := by
  cases closing with
  | brace => rfl
  | bracket => rfl
  | endOfText => contradiction

/-- Behind a closing that is no end of the text there is less. -/
theorem skip_length_lt {closing : Closing} {s : List Char} (hclosing : closing ≠ .endOfText)
    (h : closing.reached s = true) : (closing.skip s).length < s.length := by
  obtain ⟨c, t, rfl⟩ := List.exists_cons_of_ne_nil (ne_nil_of_reached hclosing h)
  rw [skip_cons hclosing]
  exact Nat.lt_succ_self _

/-- A closing with another text behind it. -/
theorem closing_replace {closing : Closing} {s a : List Char} (hclosing : closing ≠ .endOfText)
    (h : closing.reached (afterGap s) = true) (hs : s = a ++ closing.skip (afterGap s))
    (rest' : List Char) :
    closing.reached (afterGap (a ++ rest')) = true ∧
      closing.skip (afterGap (a ++ rest')) = rest' := by
  obtain ⟨g, hg⟩ := afterGap_suffix s
  have hself := afterGap_of_reached h
  obtain ⟨c, t, hc⟩ := List.exists_cons_of_ne_nil (ne_nil_of_reached hclosing h)
  rw [hc] at h hs hg hself
  rw [skip_cons hclosing] at hs
  obtain rfl : a = g ++ [c] := by
    apply List.append_cancel_right (hs.symm.trans (hg.symm.trans _))
    simp
  have hover : afterGap (g ++ (c :: t)) = c :: t := by rw [hg, hc]
  have hreached' : closing.reached (c :: rest') = true := by
    rw [← List.singleton_append, reached_append (List.cons_ne_nil _ _)] at h ⊢
    exact h
  have hgap : afterGap (g ++ [c] ++ rest') = c :: rest' := by
    rw [List.append_assoc, List.singleton_append, afterGap_replace hover (List.cons_ne_nil _ _)]
    exact afterGap_of_reached hreached'
  rw [hgap]
  exact ⟨hreached', skip_cons hclosing c rest'⟩

/-! ## Between elements -/

/-- After a comma the next element may stand. -/
theorem nextElement_of_comma {closing : Closing} {s rest : List Char}
    (h : afterGap s = ',' :: rest) : nextElement closing s = some rest := by
  unfold nextElement
  rw [h]
  rfl

/-- Without a comma the next element may stand on a new line, or where the closing stands. -/
theorem nextElement_of_not_comma {closing : Closing} {s : List Char}
    (h : (afterGap s).head? ≠ some ',') :
    nextElement closing s =
      if crossesLine s || closing.reached (afterGap s) then some (afterGap s) else none := by
  unfold nextElement
  split
  · rename_i heq
    rw [heq] at h
    exact absurd rfl h
  · rfl

/-- The blanks at the front of a text belong to the gap there. -/
theorem gap_afterBlanks (s : List Char) : gap false (afterBlanks s) = gap false s := by
  induction s with
  | nil => rfl
  | cons c t ih =>
    cases hc : isInlineBlank c with
    | false => rw [afterBlanks, List.dropWhile_cons_of_neg (by simp [hc])]
    | true =>
      have hline : c ≠ '\n' := by
        rintro rfl
        cases hc
      rw [afterBlanks, List.dropWhile_cons_of_pos hc, gap, if_neg hline, Bool.false_or, if_pos hc]
      exact ih

/-- Where the next element may stand behind an element, no token goes on. -/
theorem ends_of_nextElement {closing : Closing} {s next : List Char}
    (h : nextElement closing s = some next) : token (afterBlanks s) = .ok none := by
  have hgap : afterGap (afterBlanks s) = afterGap s := congrArg Prod.snd (gap_afterBlanks s)
  have hline : crossesLine (afterBlanks s) = crossesLine s := congrArg Prod.fst (gap_afterBlanks s)
  have hself := afterBlanks_afterBlanks s
  generalize afterBlanks s = u at hgap hline hself ⊢
  cases u with
  | nil => rfl
  | cons c t =>
    have hblank : isInlineBlank c = false := by
      by_contra hblank
      rw [Bool.not_eq_false] at hblank
      rw [afterBlanks, List.dropWhile_cons_of_pos hblank] at hself
      have hle := (List.dropWhile_suffix isInlineBlank (l := t)).length_le
      rw [hself, List.length_cons] at hle
      omega
    -- A new line, a comment, a comma or the closing stands there.
    by_cases hnewline : c = '\n'
    · rw [hnewline]
      exact token_eq_none (by decide) (by decide) t
    · cases hcomment : startsComment (c :: t) with
      | true =>
        refine token_eq_none_iff.2 ⟨?_, ?_⟩
        · intro hquote
          rw [Option.some.inj hquote] at hcomment
          cases hcomment
        · rw [bareWord, hcomment, Bool.not_true, Bool.and_false, if_neg (by decide)]
      | false =>
        have hover : gap false (c :: t) = (false, c :: t) := by
          rw [gap, if_neg hnewline, Bool.false_or, hblank, if_neg (by decide), hcomment,
            if_neg (by decide)]
        have hrest : afterGap s = c :: t := by rw [← hgap, afterGap, hover]
        have hsame : crossesLine s = false := by rw [← hline, crossesLine, hover]
        by_cases hcomma : c = ','
        · rw [hcomma]
          exact token_eq_none (by decide) (by decide) t
        · rw [nextElement_of_not_comma (by simpa [hrest] using hcomma), hsame, hrest,
            Bool.false_or] at h
          split at h
          · rename_i hreached
            obtain hnil | ⟨d, u, heq, hd⟩ := reached_cases hreached
            · cases hnil
            · cases heq
              rcases hd with rfl | rfl
              · exact token_eq_none (by decide) (by decide) t
              · exact token_eq_none (by decide) (by decide) t
          · cases h

/-- Where the next element may stand, another text may stand in the place of that element. -/
theorem nextElement_replace {closing : Closing} {n next next' : List Char}
    (h : nextElement closing (n ++ next) = some next) (hnext : next ≠ [])
    (hreached : closing.reached next = true → closing.reached (afterGap next') = true)
    (hcomma : (afterGap next').head? ≠ some ',') :
    ∃ start, nextElement closing (n ++ next') = some start ∧ afterGap start = afterGap next' := by
  by_cases hfirst : (afterGap (n ++ next)).head? = some ','
  · -- The comma belongs to what stands between the elements.
    obtain ⟨r, hr⟩ := List.head?_eq_some_iff.1 hfirst
    obtain rfl : r = next := by
      rw [nextElement_of_comma hr] at h
      exact Option.some.inj h
    obtain ⟨g, hg⟩ := afterGap_suffix (n ++ r)
    rw [hr] at hg
    obtain rfl : n = g ++ [','] := by
      apply List.append_cancel_right (hg.symm.trans _)
      simp
    have hassoc (t : List Char) : g ++ [','] ++ t = g ++ (',' :: t) := by simp
    rw [hassoc] at hr
    refine ⟨next', nextElement_of_comma ?_, rfl⟩
    rw [hassoc, afterGap_replace hr (List.cons_ne_nil _ _)]
    exact afterGap_eq_self_iff.2 ⟨by decide, rfl⟩
  · -- Without a comma only the gap stands between the elements.
    rw [nextElement_of_not_comma hfirst] at h
    split at h
    · rename_i hmay
      have hgap : afterGap (n ++ next) = next := Option.some.inj h
      have hgap' : afterGap (n ++ next') = afterGap next' := afterGap_replace hgap hnext next'
      refine ⟨afterGap next', ?_, afterGap_afterGap next'⟩
      rw [nextElement_of_not_comma (by rw [hgap']; exact hcomma), hgap',
        crossesLine_replace hgap hnext]
      rw [hgap, Bool.or_eq_true] at hmay
      rcases hmay with hline | hclosing
      · rw [hline, Bool.true_or, Bool.true_or, if_pos rfl]
      · rw [hreached hclosing, Bool.or_true, if_pos rfl]
    · cases h

/-- What stands between two elements, with other elements behind it: it ends the first one as it
did, and the next one may stand there. -/
theorem exists_nextElement_replace {closing : Closing} {rest next next' : List Char}
    (h : nextElement closing rest = some next) (hnext : next ≠ [])
    (hslash : next'.head? = some '/' → next.head? = some '/')
    (hreached : closing.reached next = true → closing.reached (afterGap next') = true)
    (hcomma : (afterGap next').head? ≠ some ',') :
    ∃ n start, rest = n ++ next ∧ EndsLike rest (n ++ next') ∧
      nextElement closing (n ++ next') = some start ∧ afterGap start = afterGap next' := by
  obtain ⟨n, rfl⟩ := nextElement_suffix h
  obtain ⟨start, hstart, hgap⟩ := nextElement_replace h hnext hreached hcomma
  refine ⟨n, start, rfl, ⟨fun _ => ends_of_nextElement hstart, ?_⟩, hstart, hgap⟩
  cases n with
  | nil => exact hslash
  | cons c n => exact id

/-- A text that begins with a gap, an element and further elements, with another text behind them
all: the element begins behind the gap, it ends where it did, and the further elements follow. -/
theorem element_replace {closing : Closing} {s w rest i after a rest' : List Char}
    (hfirst : w ++ rest = afterGap s) (hw : w ≠ [])
    (hnext : nextElement closing rest = some (i ++ after)) (hi : i ≠ []) (hs : s = a ++ after)
    (hcomma : (afterGap (i ++ rest')).head? ≠ some ',') :
    ∃ more start, EndsLike rest more ∧ afterGap (a ++ rest') = w ++ more ∧
      nextElement closing more = some start ∧ afterGap start = afterGap (i ++ rest') := by
  obtain ⟨n, start, rfl, hlike, hstart, hgap⟩ :=
    exists_nextElement_replace hnext (by simp [hi]) (by simp [List.head?_append_of_ne_nil _ hi])
      (fun hreached => reached_afterGap_of_append hi hreached rest') hcomma
  obtain ⟨g, hg⟩ := afterGap_suffix s
  have hself : afterGap (w ++ (n ++ (i ++ after))) = w ++ (n ++ (i ++ after)) := by
    rw [hfirst, afterGap_afterGap]
  have hover : afterGap (g ++ (w ++ (n ++ (i ++ after)))) = w ++ (n ++ (i ++ after)) := by
    rw [hfirst, hg]
  obtain rfl : a = g ++ (w ++ (n ++ i)) := by
    apply List.append_cancel_right (hs.symm.trans (hg.symm.trans _))
    rw [← hfirst]
    simp
  refine ⟨n ++ (i ++ rest'), start, hlike, ?_, hstart, hgap⟩
  have hassoc : g ++ (w ++ (n ++ i)) ++ rest' = g ++ (w ++ (n ++ (i ++ rest'))) := by simp
  rw [hassoc, afterGap_replace hover (by simp [hw])]
  exact afterGap_append_eq_self hw hself hlike.2

/-! ## Phrases -/

/-- The phrase ends by itself: it is not the fields of a root object without braces. -/
def Phrase.HasEnd : Phrase → Prop
  | .fields closing _ => closing ≠ .endOfText
  | .value _ | .field _ | .items _ => True

/-- What is left is a suffix, and something has been read if the phrase has an end of its own. -/
theorem Reads.suffix {p : Phrase} {s rest : List Char} (h : Reads p s rest) :
    rest <:+ s ∧ (p.HasEnd → rest.length < s.length) := by
  induction h with
  | object _ ih =>
    exact ⟨ih.1.trans (List.suffix_cons _ _), fun _ => Nat.lt_succ_of_lt (ih.2 nofun)⟩
  | list _ ih =>
    exact ⟨ih.1.trans (List.suffix_cons _ _), fun _ => Nat.lt_succ_of_lt (ih.2 trivial)⟩
  | scalar hscalar => exact ⟨(scalar_suffix hscalar).1, fun _ => (scalar_suffix hscalar).2⟩
  | field hpath hstart _ ih =>
    have hkey := keyPath_suffix hpath
    have hvalue := ih.1.trans (fieldValue?_suffix hstart)
    exact ⟨hvalue.trans hkey.1, fun _ => Nat.lt_of_le_of_lt hvalue.length_le hkey.2⟩
  | @itemsEnd s hreached =>
    refine ⟨(Closing.skip_suffix _ _).trans (afterGap_suffix s), fun _ => ?_⟩
    exact Nat.lt_of_lt_of_le (skip_length_lt (by decide) hreached) (afterGap_length_le s)
  | @itemsCons v vs s rest next after _ hnext _ ihvalue ihitems =>
    have hbehind := (ihitems.1.trans (nextElement_suffix hnext)).trans ihvalue.1
    have hlt := ihvalue.2 trivial
    have hle := (ihitems.1.trans (nextElement_suffix hnext)).length_le
    have hgap := afterGap_length_le s
    exact ⟨hbehind.trans (afterGap_suffix s), fun _ => by omega⟩
  | @fieldsEnd closing s hreached =>
    refine ⟨(Closing.skip_suffix _ _).trans (afterGap_suffix s), fun hp => ?_⟩
    exact Nat.lt_of_lt_of_le (skip_length_lt hp hreached) (afterGap_length_le s)
  | @fieldsCons closing f fs s rest next after _ hnext _ ihfield ihfields =>
    have hbehind := (ihfields.1.trans (nextElement_suffix hnext)).trans ihfield.1
    have hlt := ihfield.2 trivial
    have hle := (ihfields.1.trans (nextElement_suffix hnext)).length_le
    have hgap := afterGap_length_le s
    exact ⟨hbehind.trans (afterGap_suffix s), fun _ => by omega⟩

/-- What makes a text longer is not empty. -/
theorem ne_nil_of_length_lt {a rest s : List Char} (h : rest.length < s.length)
    (hs : a ++ rest = s) : a ≠ [] := by
  rintro rfl
  rw [← hs, List.nil_append] at h
  exact Nat.lt_irrefl _ h

/-- The gap at the front of some items does not matter to them. -/
theorem Reads.items_of_afterGap_eq {vs : List Value} {s s' after : List Char}
    (h : Reads (.items vs) s after) (hgap : afterGap s = afterGap s') :
    Reads (.items vs) s' after := by
  cases h with
  | itemsEnd hreached =>
    rw [hgap] at hreached ⊢
    exact .itemsEnd hreached
  | itemsCons hvalue hnext hitems =>
    rw [hgap] at hvalue
    exact .itemsCons hvalue hnext hitems

/-- The gap at the front of some fields does not matter to them. -/
theorem Reads.of_afterGap_eq {closing : Closing} {fs : List Field} {s s' after : List Char}
    (h : Reads (.fields closing fs) s after) (hgap : afterGap s = afterGap s') :
    Reads (.fields closing fs) s' after := by
  cases h with
  | fieldsEnd hreached =>
    rw [hgap] at hreached ⊢
    exact .fieldsEnd hreached
  | fieldsCons hfield hnext hfields =>
    rw [hgap] at hfield
    exact .fieldsCons hfield hnext hfields

/-- The gap at the front of some fields does not matter to them. -/
theorem fields_of_afterGap_eq {s s' : List Char} (h : afterGap s = afterGap s')
    (closing : Closing) : fields closing s = fields closing s' := by
  rw [fields_eq, h, ← fields_eq]

/-- Items do not begin with a comma. -/
theorem Reads.head?_ne_comma_of_items {vs : List Value} {s after : List Char}
    (h : Reads (.items vs) s after) : (afterGap s).head? ≠ some ',' := by
  cases h with
  | itemsEnd hreached => exact head?_ne_comma_of_reached hreached
  | itemsCons hvalue _ _ => exact head?_ne_comma_of_value hvalue.isRead

/-- Fields begin with a key or with their closing. -/
theorem Reads.head?_ne_of_fields {closing : Closing} {fs : List Field} {s after : List Char}
    (h : Reads (.fields closing fs) s after) {d : Char} (hquote : d ≠ '"')
    (hd : isKeyChar d = false) (hclosing : ∀ t, ¬ closing.reached (d :: t) = true) :
    (afterGap s).head? ≠ some d := by
  cases h with
  | fieldsEnd hreached =>
    intro hhead
    obtain ⟨t, ht⟩ := List.head?_eq_some_iff.1 hhead
    rw [ht] at hreached
    exact hclosing t hreached
  | fieldsCons hfield _ _ =>
    obtain ⟨_, _, hpath, _⟩ := field_eq_ok hfield.isRead
    exact head?_ne_of_keyPath hpath hquote hd

/-- Fields do not begin with a comma. -/
theorem Reads.head?_ne_comma_of_fields {closing : Closing} {fs : List Field} {s after : List Char}
    (h : Reads (.fields closing fs) s after) : (afterGap s).head? ≠ some ',' := by
  refine h.head?_ne_of_fields (by decide) (by decide) fun t => ?_
  cases closing <;> simp [Closing.reached]

/-- A phrase with another text behind it, where nothing of the phrase goes on. -/
theorem Reads.replace {p : Phrase} {s rest a rest' : List Char} (h : Reads p s rest)
    (hp : p.HasEnd) (hs : s = a ++ rest) (hlike : EndsLike rest rest') :
    Reads p (a ++ rest') rest' := by
  induction h generalizing a rest' with
  | @object fs t after hfields ih =>
    obtain ⟨u, rfl⟩ := hfields.suffix.1
    obtain rfl : a = '{' :: u := List.append_cancel_right (hs.symm.trans rfl)
    exact .object (ih nofun rfl hlike)
  | @list vs t after hitems ih =>
    obtain ⟨u, rfl⟩ := hitems.suffix.1
    obtain rfl : a = '[' :: u := List.append_cancel_right (hs.symm.trans rfl)
    exact .list (ih trivial rfl hlike)
  | scalar hscalar =>
    subst hs
    exact .scalar (scalar_replace hscalar hlike)
  | @field path v s after start rest hpath hstart hvalue ih =>
    -- The text is a key path, what leads to the value, and the value.
    obtain ⟨u, rfl⟩ := hvalue.suffix.1
    obtain ⟨b, rfl⟩ := fieldValue?_suffix hstart
    obtain ⟨k, rfl⟩ := (keyPath_suffix hpath).1
    obtain rfl : a = k ++ (b ++ u) := by
      apply List.append_cancel_right (hs.symm.trans _)
      simp
    have hvalue' : Reads (.value v) (u ++ rest') rest' := ih trivial rfl hlike
    have hblanks : afterBlanks (u ++ rest') = u ++ rest' :=
      afterBlanks_of_afterGap (afterGap_of_value hvalue'.isRead)
    have hune : u ≠ [] := ne_nil_of_length_lt (hvalue.suffix.2 trivial) rfl
    have hstart' : fieldValue? (b ++ (u ++ rest')) = some (u ++ rest') := by
      refine fieldValue?_replace hstart hblanks fun hbrace => ?_
      rw [List.head?_append_of_ne_nil _ hune] at hbrace ⊢
      exact hbrace
    have hpath' := keyPath_replace hpath (not_isBareChar_of_fieldValue? hstart')
    rw [List.append_assoc, List.append_assoc]
    exact .field hpath' hstart' hvalue'
  | @itemsEnd s hreached =>
    obtain ⟨hreached', hskip⟩ := closing_replace (by decide) hreached hs rest'
    have hend := Reads.itemsEnd hreached'
    rwa [hskip] at hend
  | @itemsCons v vs s rest₁ next after hvalue hnext hitems ihvalue ihitems =>
    obtain ⟨i, rfl⟩ := hitems.suffix.1
    obtain ⟨w, hw⟩ := hvalue.suffix.1
    have hitems' : Reads (.items vs) (i ++ rest') rest' := ihitems trivial rfl hlike
    obtain ⟨more, start, hmore, hgap, hstart, hnext'⟩ :=
      element_replace hw (ne_nil_of_length_lt (hvalue.suffix.2 trivial) hw) hnext
        (ne_nil_of_length_lt (hitems.suffix.2 trivial) rfl) hs hitems'.head?_ne_comma_of_items
    have hvalue' : Reads (.value v) (w ++ more) more := ihvalue trivial hw.symm hmore
    rw [← hgap] at hvalue'
    exact .itemsCons hvalue' hstart (hitems'.items_of_afterGap_eq hnext'.symm)
  | @fieldsEnd closing s hreached =>
    obtain ⟨hreached', hskip⟩ := closing_replace hp hreached hs rest'
    have hend := Reads.fieldsEnd hreached'
    rwa [hskip] at hend
  | @fieldsCons closing f fs s rest₁ next after hfield hnext hfields ihfield ihfields =>
    obtain ⟨i, rfl⟩ := hfields.suffix.1
    obtain ⟨w, hw⟩ := hfield.suffix.1
    have hfields' : Reads (.fields closing fs) (i ++ rest') rest' := ihfields hp rfl hlike
    obtain ⟨more, start, hmore, hgap, hstart, hnext'⟩ :=
      element_replace hw (ne_nil_of_length_lt (hfield.suffix.2 trivial) hw) hnext
        (ne_nil_of_length_lt (hfields.suffix.2 hp) rfl) hs hfields'.head?_ne_comma_of_fields
    have hfield' : Reads (.field f) (w ++ more) more := ihfield trivial hw.symm hmore
    rw [← hgap] at hfield'
    exact .fieldsCons hfield' hstart (hfields'.of_afterGap_eq hnext'.symm)

/-- An element behind a gap is read again behind the same gap, with another text behind it. -/
theorem Reads.front {p : Phrase} {s rest : List Char} (h : Reads p (afterGap s) rest)
    (hp : p.HasEnd) : ∃ front, s = front ++ rest ∧
      ∀ rest', EndsLike rest rest' → Reads p (afterGap (front ++ rest')) rest' := by
  obtain ⟨w, hw⟩ := h.suffix.1
  obtain ⟨g, hg⟩ := afterGap_suffix s
  have hwne : w ≠ [] := ne_nil_of_length_lt (h.suffix.2 hp) hw
  have hself : afterGap (w ++ rest) = w ++ rest := by rw [hw, afterGap_afterGap]
  have hover : afterGap (g ++ (w ++ rest)) = w ++ rest := by rw [hw, hg]
  refine ⟨g ++ w, by rw [List.append_assoc, hw, hg], fun rest' hlike => ?_⟩
  rw [List.append_assoc, afterGap_replace hover (by simp [hwne]),
    afterGap_append_eq_self hwne hself hlike.2]
  exact h.replace hp hw.symm hlike

/-! ## Whole texts -/

/-- A text without braces around it is read as fields up to its end. -/
theorem document_of_not_brace {s : List Char} (h : (afterGap s).head? ≠ some '{') :
    document s = (fields .endOfText s).map (·.1) := by
  have hfields : fields .endOfText (afterGap s) = fields .endOfText s :=
    fields_of_afterGap_eq (afterGap_afterGap s) _
  unfold document
  split
  · rename_i heq
    rw [heq] at h
    exact absurd rfl h
  · rw [hfields]

/-- Behind an opening brace the fields go up to the closing one, and nothing follows that. -/
theorem document_eq_of_brace {s rest : List Char} (h : afterGap s = '{' :: rest) :
    document s = match fields .brace rest with
      | .error fault => .error fault
      | .ok (fs, after) =>
        if (afterGap after).isEmpty then .ok fs else .error ⟨.trailingContent, afterGap after⟩ := by
  simp only [document, h]
  rcases fields .brace rest with fault | ⟨fs, after⟩
  · rfl
  · dsimp only
    cases afterGap after <;> rfl

/-- A text with braces around it is read as fields up to the closing one. -/
theorem document_of_brace {s rest after : List Char} {fs : List Field}
    (h : afterGap s = '{' :: rest) (hfields : Reads (.fields .brace fs) rest after)
    (hafter : afterGap after = []) : document s = .ok fs := by
  have hread : fields .brace rest = .ok (fs, after) := hfields.isRead
  rw [document_eq_of_brace h, hread]
  exact if_pos (List.isEmpty_iff.2 hafter)

/-- What is read from a text with braces around it. -/
theorem document_of_brace_eq_ok {s rest : List Char} {fs : List Field}
    (h : afterGap s = '{' :: rest) (hread : document s = .ok fs) :
    ∃ after, Reads (.fields .brace fs) rest after ∧ afterGap after = [] := by
  rw [document_eq_of_brace h] at hread
  split at hread
  · cases hread
  · rename_i fs' after hfields
    split_ifs at hread with hafter
    cases hread
    exact ⟨after, reads_of_fields hfields, List.isEmpty_iff.1 hafter⟩

/-- Fields that end with the text leave nothing of it. -/
theorem Reads.eq_nil_of_endOfText {fs : List Field} {s after : List Char}
    (h : Reads (.fields .endOfText fs) s after) : after = [] := by
  generalize hphrase : Phrase.fields .endOfText fs = p at h
  induction h generalizing fs with
  | fieldsEnd hreached =>
    cases hphrase
    exact List.isEmpty_iff.1 hreached
  | fieldsCons _ _ _ _ ih =>
    cases hphrase
    exact ih rfl
  | _ => cases hphrase

/-- What is read from a text without braces around it. -/
theorem document_of_not_brace_iff {s : List Char} {fs : List Field}
    (h : (afterGap s).head? ≠ some '{') :
    document s = .ok fs ↔ Reads (.fields .endOfText fs) s [] := by
  rw [document_of_not_brace h]
  constructor
  · intro hread
    obtain ⟨⟨fs', after⟩, hfields, rfl⟩ := of_map_eq_ok hread
    have hreads := reads_of_fields hfields
    obtain rfl := hreads.eq_nil_of_endOfText
    exact hreads
  · intro hreads
    have hfields : fields .endOfText s = .ok (fs, []) := hreads.isRead
    rw [hfields]
    rfl

end LeaderKey.Grammar
