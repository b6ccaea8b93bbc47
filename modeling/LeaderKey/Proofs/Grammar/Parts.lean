import LeaderKey.Proofs.Grammar.Comments.Phrase
import Mathlib.Data.List.Chain

/-!
# What the characters of a text belong to

`parts` scans a text once, from left to right, and tells of every character whether it belongs to
quotes, to a comment or to neither. Like `strip`, which leaves out what it takes for comments
(`strip_eq_filter_parts`), it knows nothing of the grammar. Where two slashes begin a comment only
after a blank (`SlashesApart`), `Reads.supported` says that nothing is read with an unsupported
character outside of quotes and comments: the readers neither take such a character into a key or a
value nor skip it.
-/

namespace LeaderKey.Grammar

open LeaderKey.Text

/-- What a character of a text belongs to. -/
inductive Part where
  /-- Neither quotes nor a comment. -/
  | bare
  /-- A text in quotes or in triple quotes, or these quotes themselves. -/
  | quotes
  /-- A comment, or the mark at its front. -/
  | comment
  deriving DecidableEq, Repr

/-- The characters of a text that begins in a context, each with what it belongs to. The new line
behind a comment does not belong to it. -/
def parts : Context → List Char → List (Char × Part)
  | _, [] => []
  | .plain, '"' :: '"' :: '"' :: rest =>
    ('"', .quotes) :: ('"', .quotes) :: ('"', .quotes) :: parts .triple rest
  | .plain, c :: rest =>
    if startsComment (c :: rest) then (c, .comment) :: parts .comment rest
    else if c = '"' then (c, .quotes) :: parts .quoted rest
    else (c, .bare) :: parts .plain rest
  | .quoted, '\\' :: c :: rest => ('\\', .quotes) :: (c, .quotes) :: parts .quoted rest
  | .quoted, c :: rest => (c, .quotes) :: parts (if c = '"' then .plain else .quoted) rest
  | .triple, '"' :: '"' :: '"' :: rest =>
    ('"', .quotes) :: ('"', .quotes) :: ('"', .quotes) :: parts .plain rest
  | .triple, c :: rest => (c, .quotes) :: parts .triple rest
  | .comment, c :: rest =>
    if c = '\n' then (c, .bare) :: parts .plain rest else (c, .comment) :: parts .comment rest

/-- The characters of the constructs that config texts do not have: substitutions, `+=` and the
like. -/
def unsupported : List Char := ['$', '+', '\x60', '^', '?', '!', '@', '*', '&', '\\']

/-- Two slashes begin a comment only at the front of the text or after a blank: a slash of a comment
follows another character of the comment or a blank, if anything. -/
def SlashesApart (text : List (Char × Part)) : Prop :=
  text.IsChain fun a b => b = ('/', .comment) → a.2 = .comment ∨ isBlank a.1 = true

instance (text : List (Char × Part)) : Decidable (SlashesApart text) :=
  inferInstanceAs (Decidable (List.IsChain _ text))

/-! ## The scan, character by character -/

/-- Every character is told of. -/
theorem map_fst_parts (context : Context) (s : List Char) : (parts context s).map Prod.fst = s := by
  fun_induction parts context s <;> simp_all

/-- What is left of a text without its comments are the characters that belong to none. -/
theorem strip_eq_filter_parts (context : Context) (s : List Char) :
    strip context s = ((parts context s).filter fun m => m.2 != .comment).map Prod.fst := by
  fun_induction parts context s <;> simp_all [strip]

/-- Outside of quotes, a character other than a quote begins a comment or belongs to nothing. -/
theorem parts_cons {c : Char} (hquote : c ≠ '"') (rest : List Char) :
    parts .plain (c :: rest) =
      if startsComment (c :: rest) then (c, .comment) :: parts .comment rest
      else (c, .bare) :: parts .plain rest := by
  rw [parts.eq_3, if_neg hquote]
  rintro t rfl
  exact absurd rfl hquote

/-- Where no comment begins, a character other than a quote belongs to nothing. -/
theorem parts_bare {c : Char} {rest : List Char} (hquote : c ≠ '"')
    (hcomment : startsComment (c :: rest) = false) :
    parts .plain (c :: rest) = (c, .bare) :: parts .plain rest := by
  rw [parts_cons hquote, hcomment, if_neg Bool.false_ne_true]

/-- A character that is part of no quotes and no comment mark belongs to nothing. -/
theorem parts_solid {c : Char} (hquote : c ≠ '"') (hhash : c ≠ '#') (hslash : c ≠ '/')
    (rest : List Char) : parts .plain (c :: rest) = (c, .bare) :: parts .plain rest := by
  refine parts_bare hquote ?_
  rw [startsComment_cons, beq_eq_false_iff_ne.2 hhash, beq_eq_false_iff_ne.2 hslash]
  rfl

/-- The mark of a comment belongs to it. -/
theorem parts_of_startsComment {c : Char} {rest : List Char}
    (h : startsComment (c :: rest) = true) :
    parts .plain (c :: rest) = (c, .comment) :: parts .comment rest := by
  have hquote : c ≠ '"' := by
    rintro rfl
    cases h
  rw [parts_cons hquote, if_pos h]

/-- A quote that is no triple quote opens a quoted text. -/
theorem parts_quote {rest : List Char} (h : ∀ t, rest ≠ '"' :: '"' :: t) :
    parts .plain ('"' :: rest) = ('"', .quotes) :: parts .quoted rest := by
  rw [parts.eq_3]
  · rfl
  · rintro t - rfl
    exact h t rfl

/-- A character in quotes that neither closes them nor begins an escape. -/
theorem parts_quoted_cons {c : Char} (hquote : c ≠ '"') (hescape : c ≠ '\\') (rest : List Char) :
    parts .quoted (c :: rest) = (c, .quotes) :: parts .quoted rest := by
  rw [parts.eq_5, if_neg hquote]
  rintro d t rfl
  exact absurd rfl hescape

/-- Characters in quotes that neither close them nor begin an escape. -/
theorem parts_quoted_append {cs : List Char} (h : ∀ c ∈ cs, c ≠ '"' ∧ c ≠ '\\')
    (rest : List Char) :
    parts .quoted (cs ++ rest) = cs.map (·, .quotes) ++ parts .quoted rest := by
  induction cs with
  | nil => rfl
  | cons c cs ih =>
    rw [List.forall_mem_cons] at h
    rw [List.cons_append, parts_quoted_cons h.1.1 h.1.2, ih h.2]
    rfl

/-- The closing quote belongs to the quoted text. -/
theorem parts_quoted_quote (rest : List Char) :
    parts .quoted ('"' :: rest) = ('"', .quotes) :: parts .plain rest := by
  rw [parts.eq_5, if_pos rfl]
  rintro d t heq
  exact absurd heq (by decide)

/-- A character in triple quotes with which no triple quote begins. -/
theorem parts_triple_cons {c : Char} {rest : List Char}
    (h : ∀ t, c = '"' → rest ≠ '"' :: '"' :: t) :
    parts .triple (c :: rest) = (c, .quotes) :: parts .triple rest := by
  rw [parts.eq_7]
  exact h

/-! ## Reading over a text -/

/-- From the front of `s`, which begins in a context, up to `rest`, which begins outside of quotes
and comments, the scan meets no unsupported character outside of them. -/
def Supported (context : Context) (s rest : List Char) : Prop :=
  ∃ front, parts context s = front ++ parts .plain rest ∧
    ∀ c ∈ unsupported, (c, Part.bare) ∉ front

/-- Nothing is met over nothing. -/
theorem Supported.refl (s : List Char) : Supported .plain s s :=
  ⟨[], rfl, fun _ _ => List.not_mem_nil⟩

/-- A front in which the scan meets none. -/
theorem Supported.append {context context' : Context} {s t rest : List Char}
    (front : List (Char × Part)) (hparts : parts context s = front ++ parts context' t)
    (hfront : ∀ c ∈ unsupported, (c, Part.bare) ∉ front) (h : Supported context' t rest) :
    Supported context s rest := by
  obtain ⟨more, ht, hmore⟩ := h
  refine ⟨front ++ more, by rw [hparts, ht, List.append_assoc], fun c hc hmem => ?_⟩
  rcases List.mem_append.1 hmem with hmem | hmem
  · exact hfront c hc hmem
  · exact hmore c hc hmem

/-- One text after the other. -/
theorem Supported.trans {context : Context} {s t rest : List Char} (h : Supported context s t)
    (hrest : Supported .plain t rest) : Supported context s rest := by
  obtain ⟨front, hs, hfront⟩ := h
  exact hrest.append front hs hfront

/-- One more character in front, which is supported or belongs to quotes or to a comment. -/
theorem Supported.cons {context context' : Context} {c : Char} {part : Part} {s rest : List Char}
    (hparts : parts context (c :: s) = (c, part) :: parts context' s)
    (hc : part = .bare → c ∉ unsupported) (h : Supported context' s rest) :
    Supported context (c :: s) rest := by
  refine h.append [(c, part)] hparts fun d hd hmem => ?_
  cases List.mem_singleton.1 hmem
  exact hc rfl hd

/-- One more character in front, which belongs to quotes or to a comment. -/
theorem Supported.hidden {context context' : Context} {c : Char} {part : Part}
    {s rest : List Char} (hparts : parts context (c :: s) = (c, part) :: parts context' s)
    (hpart : part ≠ .bare) (h : Supported context' s rest) : Supported context (c :: s) rest :=
  h.cons hparts fun hbare => absurd hbare hpart

/-- Characters in front that belong to quotes. -/
theorem Supported.quotes {context context' : Context} {s t rest : List Char} (front : List Char)
    (hparts : parts context s = front.map (·, .quotes) ++ parts context' t)
    (h : Supported context' t rest) : Supported context s rest :=
  h.append (front.map (·, .quotes)) hparts (by simp)

/-- A character that ends nothing and is supported. -/
theorem Supported.solid {c : Char} (hc : c ∉ '"' :: '#' :: '/' :: unsupported) (s : List Char) :
    Supported .plain (c :: s) s := by
  simp only [List.mem_cons, not_or] at hc
  obtain ⟨hquote, hhash, hslash, hc⟩ := hc
  refine .cons (parts_solid hquote hhash hslash s) (fun _ => ?_) (.refl s)
  simpa only [unsupported, List.mem_cons, not_or] using hc

/-- A class of characters that has none of the unsupported ones. -/
theorem not_unsupported_of {p : Char → Bool} (hall : unsupported.all (fun c => !p c) = true)
    {c : Char} (h : p c = true) : c ∉ unsupported := by
  intro hc
  have hnot := List.all_eq_true.1 hall c hc
  rw [h] at hnot
  cases hnot

/-- Bare words hold no unsupported character. -/
theorem not_unsupported_of_isBareChar {c : Char} (h : isBareChar c = true) : c ∉ unsupported :=
  not_unsupported_of (by decide) h

/-- No blank is an unsupported character. -/
theorem not_unsupported_of_isBlank {c : Char} (h : isBlank c = true) : c ∉ unsupported :=
  not_unsupported_of (by decide) h

/-! ## Gaps and blanks -/

/-- A blank in front. -/
theorem Supported.blank {c : Char} {s rest : List Char} (hblank : isInlineBlank c = true)
    (h : Supported .plain s rest) : Supported .plain (c :: s) rest := by
  refine .cons (parts_solid ?_ ?_ ?_ s) (fun _ => ?_) h
  · rintro rfl
    cases hblank
  · rintro rfl
    cases hblank
  · rintro rfl
    cases hblank
  · exact not_unsupported_of_isBlank (isBlank_of_isInlineBlank hblank)

/-- A gap is blank or belongs to comments. -/
theorem supported_gap (inComment : Bool) (s : List Char) :
    Supported (if inComment then .comment else .plain) s (gap inComment s).2 := by
  -- A comment begins and ends inside the gap, so the induction is for both contexts.
  induction s generalizing inComment with
  | nil => cases inComment <;> exact ⟨[], rfl, fun _ _ => List.not_mem_nil⟩
  | cons c rest ih =>
    have hplain := ih false
    have hinside := ih true
    rw [if_neg Bool.false_ne_true] at hplain
    rw [if_pos rfl] at hinside
    rw [gap]
    by_cases hline : c = '\n'
    · subst hline
      rw [if_pos rfl]
      have hparts : parts (if inComment then .comment else .plain) ('\n' :: rest) =
          ('\n', .bare) :: parts .plain rest := by
        cases inComment <;> rfl
      exact .cons hparts (fun _ => by decide) hplain
    · rw [if_neg hline]
      cases inComment with
      | true =>
        rw [Bool.true_or, if_pos rfl, if_pos rfl]
        have hparts : parts .comment (c :: rest) = (c, .comment) :: parts .comment rest := by
          rw [parts, if_neg hline]
        exact .hidden hparts (by decide) hinside
      | false =>
        rw [Bool.false_or, if_neg Bool.false_ne_true]
        split_ifs with hblank hcomment
        · exact hplain.blank hblank
        · exact .hidden (parts_of_startsComment hcomment) (by decide) hinside
        · exact .refl _

/-- What stands before the text after a gap. -/
theorem supported_afterGap (s : List Char) : Supported .plain s (afterGap s) :=
  supported_gap false s

/-- What stands before the text after the blanks at its front. -/
theorem supported_afterBlanks (s : List Char) : Supported .plain s (afterBlanks s) := by
  induction s with
  | nil => exact .refl []
  | cons c rest ih =>
    rw [afterBlanks, List.dropWhile_cons]
    split_ifs with hblank
    · exact ih.blank hblank
    · exact .refl _

/-! ## Tokens -/

/-- Everything up to the closing quote belongs to the quotes. -/
theorem supported_quotedBody {s text rest : List Char} (h : quotedBody s = .ok (text, rest)) :
    Supported .quoted s rest := by
  fun_induction quotedBody s generalizing text with
  | case1 => cases h
  | case2 r =>
    cases h
    exact .hidden (parts_quoted_quote _) (by decide) (.refl _)
  | case3 => cases h
  | case4 r scalar after he _ _ ih =>
    obtain ⟨t, rfl, ht⟩ := Result.cons_eq_ok.1 h
    obtain ⟨e, w, rfl⟩ : ∃ e w, r = e :: w := by
      cases r with
      | nil => cases he
      | cons e w => exact ⟨e, w, rfl⟩
    obtain ⟨places, rfl, hplaces⟩ := exists_places_of_escape he
    have hparts : parts .quoted ('\\' :: e :: (places ++ after)) =
        ('\\' :: e :: places).map (·, .quotes) ++ parts .quoted after := by
      rw [parts, parts_quoted_append hplaces]
      rfl
    exact (ih ht).quotes ('\\' :: e :: places) hparts
  | case5 => cases h
  | case6 c r hquote hline hescape ih =>
    obtain ⟨t, rfl, ht⟩ := Result.cons_eq_ok.1 h
    exact .hidden (parts_quoted_cons hquote hescape r) (by decide) (ih ht)

/-- Everything up to the closing triple quotes belongs to the quotes. -/
theorem supported_tripleBody {s text rest : List Char} (h : tripleBody s = some (text, rest)) :
    Supported .triple s rest := by
  fun_induction tripleBody s generalizing text with
  | case1 => cases h
  | case2 r =>
    cases h
    exact .quotes ['"', '"', '"'] (by rw [parts]; rfl) (.refl _)
  | case3 c r hquotes ih =>
    obtain ⟨⟨t, u⟩, ht, heq⟩ := Option.map_eq_some_iff.1 h
    cases heq
    refine .hidden (parts_triple_cons fun t hc hr => ?_) (by decide) (ih ht)
    exact hquotes t hc hr

/-- A bare word belongs to nothing and holds no unsupported character. -/
theorem supported_bareWord (s : List Char) : Supported .plain s (bareWord s).2 := by
  induction s with
  | nil => exact .refl []
  | cons c rest ih =>
    rw [bareWord]
    split_ifs with h
    · rw [Bool.and_eq_true, Bool.not_eq_true'] at h
      have hquote : c ≠ '"' := by
        rintro rfl
        exact absurd h.1 (by decide)
      exact .cons (parts_bare hquote h.2) (fun _ => not_unsupported_of_isBareChar h.1) ih
    · exact .refl _

/-- A token. -/
theorem supported_token {s rest : List Char} {t : Token} (h : token s = .ok (some (t, rest))) :
    Supported .plain s rest := by
  unfold token at h
  split at h
  · split at h
    · rename_i hbody
      cases h
      exact (supported_tripleBody hbody).quotes ['"', '"', '"'] (by rw [parts]; rfl)
    · cases h
  · rename_i r hquotes
    obtain ⟨⟨text, after⟩, hbody, heq⟩ := of_map_eq_ok h
    cases heq
    exact .hidden (parts_quote fun t ht => hquotes t ht) (by decide) (supported_quotedBody hbody)
  · have hword := supported_bareWord s
    split at h
    · cases h
    · rename_i hsplit
      cases h
      rw [hsplit] at hword
      exact hword

/-- Further tokens. -/
theorem supported_moreTokens {s rest : List Char} {ts : List (List Char × Token)}
    (h : moreTokens s = .ok (ts, rest)) : Supported .plain s rest := by
  fun_induction moreTokens s generalizing ts with
  | case1 => cases h
  | case2 =>
    cases h
    exact .refl _
  | case3 s t r ht ih =>
    obtain ⟨⟨more, after⟩, hmore, heq⟩ := of_map_eq_ok h
    cases heq
    exact ((supported_afterBlanks s).trans (supported_token ht)).trans (ih hmore)

/-- A scalar. -/
theorem supported_scalar {s rest : List Char} {v : Value} (h : scalar s = .ok (some (v, rest))) :
    Supported .plain s rest := by
  unfold scalar at h
  split at h
  · cases h
  · cases h
  · rename_i ht
    obtain ⟨⟨more, after⟩, hmore, heq⟩ := of_map_eq_ok h
    cases heq
    exact (supported_token ht).trans (supported_moreTokens hmore)

/-! ## Key paths

A bare key may hold two slashes, which the scan takes for a comment. Where slashes stand apart it
does not: the first of them would follow a key character or the dot before the key. -/

/-- What holds of slashes in a text holds of them behind a front of it. -/
theorem SlashesApart.of_append (front : List (Char × Part)) {text : List (Char × Part)}
    (h : SlashesApart (front ++ text)) : SlashesApart text :=
  List.IsChain.right_of_append h

/-- Where something was read over, slashes behind it stand apart. -/
theorem SlashesApart.behind {s rest : List Char} (h : SlashesApart (parts .plain s))
    (hread : Supported .plain s rest) : SlashesApart (parts .plain rest) := by
  obtain ⟨front, hs, -⟩ := hread
  rw [hs] at h
  exact h.of_append front

/-- Behind a character that is no blank, no comment begins with a slash. -/
theorem SlashesApart.not_startsComment {c : Char} {s : List Char}
    (h : SlashesApart ((c, .bare) :: parts .plain s)) (hblank : isBlank c = false)
    (hhash : s.head? ≠ some '#') : startsComment s = false := by
  by_contra hcomment
  rw [Bool.not_eq_false] at hcomment
  obtain ⟨d, t, rfl⟩ : ∃ d t, s = d :: t := by
    cases s with
    | nil => cases hcomment
    | cons d t => exact ⟨d, t, rfl⟩
  obtain rfl : d = '/' := by
    rw [startsComment_cons, Bool.or_eq_true, Bool.and_eq_true, beq_iff_eq, beq_iff_eq] at hcomment
    rcases hcomment with rfl | hslash
    · exact absurd rfl hhash
    · exact hslash.1
  rw [parts_of_startsComment hcomment] at h
  rcases (List.isChain_cons_cons.1 h).1 rfl with hpart | hc
  · cases hpart
  · rw [hblank] at hc
    cases hc

/-- No key character is a blank. -/
theorem isBlank_of_isKeyChar {c : Char} (h : isKeyChar c = true) : isBlank c = false := by
  have hbare := isBareChar_of_isKeyChar h
  rw [isBareChar, Bool.and_eq_true, Bool.not_eq_true'] at hbare
  exact hbare.1

/-- The key characters at the front of a text belong to nothing if slashes stand apart. -/
theorem supported_keyChars {s : List Char} (h : SlashesApart (parts .plain s))
    (hcomment : startsComment s = false) : Supported .plain s (s.dropWhile isKeyChar) := by
  induction s with
  | nil => exact .refl []
  | cons c rest ih =>
    rw [List.dropWhile_cons]
    split_ifs with hkey
    · have hquote : c ≠ '"' := by
        rintro rfl
        exact absurd hkey (by decide)
      have hparts := parts_bare hquote hcomment
      rw [hparts] at h
      refine .cons hparts
        (fun _ => not_unsupported_of_isBareChar (isBareChar_of_isKeyChar hkey)) ?_
      by_cases hhash : rest.head? = some '#'
      · -- A comment behind the key ends it.
        obtain ⟨t, rfl⟩ := List.head?_eq_some_iff.1 hhash
        exact .refl _
      · exact ih (h.of_append [(c, .bare)])
          (h.not_startsComment (isBlank_of_isKeyChar hkey) hhash)
    · exact .refl _

/-- A key that no quote follows. -/
theorem supported_key {s rest name : List Char} (h : key s = .ok (some (name, rest)))
    (hapart : SlashesApart (parts .plain s)) (hcomment : startsComment s = false)
    (hrest : rest.head? ≠ some '"') : Supported .plain s rest := by
  unfold key at h
  split at h
  · rename_i r
    obtain ⟨⟨text, after⟩, hbody, heq⟩ := of_map_eq_ok h
    cases heq
    refine .hidden (parts_quote ?_) (by decide) (supported_quotedBody hbody)
    -- After two quotes the key is over, and the third one would follow it.
    rintro t rfl
    rw [quotedBody, if_pos rfl] at hbody
    cases hbody
    exact hrest rfl
  · split at h
    · cases h
    · cases h
      exact supported_keyChars hapart hcomment

/-- Where no quote follows further keys, none stands before them. -/
theorem head?_ne_quote_of_moreKeys {s rest : List Char} {names : List String}
    (h : moreKeys s = .ok (names, rest)) (hrest : rest.head? ≠ some '"') :
    s.head? ≠ some '"' := by
  obtain ⟨m, rfl⟩ := moreKeys_suffix h
  cases m with
  | nil => exact hrest
  | cons c m =>
    rw [List.cons_append] at h ⊢
    rw [head?_of_moreKeys h, List.head?_cons]
    decide

/-- Further keys that no quote follows. -/
theorem supported_moreKeys {s rest : List Char} {names : List String}
    (h : moreKeys s = .ok (names, rest)) (hapart : SlashesApart (parts .plain s))
    (hrest : rest.head? ≠ some '"') : Supported .plain s rest := by
  fun_induction moreKeys s generalizing names with
  | case1 => cases h
  | case2 =>
    cases h
    exact .refl _
  | case3 s name r hk ih =>
    obtain ⟨⟨more, after⟩, hmore, heq⟩ := of_map_eq_ok h
    cases heq
    have hdot : Supported .plain ('.' :: s) s := .solid (by decide) s
    have hapart' := hapart.behind hdot
    rw [parts_solid (by decide) (by decide) (by decide)] at hapart
    have hcomment : startsComment s = false := by
      refine hapart.not_startsComment (by decide) fun hhash => ?_
      obtain ⟨t, rfl⟩ := List.head?_eq_some_iff.1 hhash
      cases hk
    have hkey := supported_key hk hapart' hcomment (head?_ne_quote_of_moreKeys hmore hrest)
    exact (hdot.trans hkey).trans (ih hmore (hapart'.behind hkey))
  | case4 =>
    cases h
    exact .refl _

/-- A key path that no quote follows. -/
theorem supported_keyPath {s rest : List Char} {path : List String}
    (h : keyPath s = .ok (some (path, rest))) (hapart : SlashesApart (parts .plain s))
    (hcomment : startsComment s = false) (hrest : rest.head? ≠ some '"') :
    Supported .plain s rest := by
  obtain ⟨k, rfl⟩ := (keyPath_suffix h).1
  obtain ⟨first, more, name, names, rfl, -, hk, hmore⟩ := exists_key_of_keyPath h
  rw [List.append_assoc] at *
  have hkey := supported_key hk hapart hcomment (head?_ne_quote_of_moreKeys hmore hrest)
  exact hkey.trans (supported_moreKeys hmore (hapart.behind hkey) hrest)

/-! ## Phrases -/

/-- What leads from a key to its value. -/
theorem supported_fieldValue? {s start : List Char} (h : fieldValue? s = some start) :
    Supported .plain s start := by
  have hblanks := supported_afterBlanks s
  rcases fieldValue?_eq_some h with ⟨r, hr, rfl⟩ | ⟨d, r, hd, hr, rfl⟩
  · rw [hr] at hblanks
    exact hblanks
  · rw [hr] at hblanks
    have hseparator : Supported .plain (d :: r) r := by
      rcases hd with rfl | rfl <;> exact .solid (by decide) r
    exact (hblanks.trans hseparator).trans (supported_afterBlanks r)

/-- What stands between two elements. -/
theorem supported_nextElement {closing : Closing} {s rest : List Char}
    (h : nextElement closing s = some rest) : Supported .plain s rest := by
  have hgap := supported_afterGap s
  by_cases hcomma : (afterGap s).head? = some ','
  · obtain ⟨r, hr⟩ := List.head?_eq_some_iff.1 hcomma
    rw [nextElement_of_comma hr, Option.some.injEq] at h
    rw [← h]
    rw [hr] at hgap
    exact hgap.trans (.solid (by decide) r)
  · rw [nextElement_of_not_comma hcomma] at h
    split_ifs at h
    rw [← Option.some.inj h]
    exact hgap

/-- A closing behind a gap. -/
theorem supported_closing {closing : Closing} {s : List Char}
    (h : closing.reached (afterGap s) = true) :
    Supported .plain s (closing.skip (afterGap s)) := by
  refine (supported_afterGap s).trans ?_
  obtain hnil | ⟨c, t, hc, hclosing⟩ := reached_cases h
  · rw [hnil]
    cases closing <;> exact .refl []
  · have hsolid : Supported .plain (c :: t) t := by
      rcases hclosing with rfl | rfl <;> exact .solid (by decide) t
    rw [hc]
    cases closing with
    | brace => exact hsolid
    | bracket => exact hsolid
    | endOfText => exact .refl _

/-- A phrase is read over no unsupported character outside of quotes and comments if slashes stand
apart; a field is read from its first character on. -/
theorem Reads.supported {p : Phrase} {s rest : List Char} (h : Reads p s rest)
    (hapart : SlashesApart (parts .plain s))
    (hfield : p.reader = .field → startsComment s = false) : Supported .plain s rest := by
  induction h with
  | @object fs rest _ _ ih =>
    have hbrace : Supported .plain ('{' :: rest) rest := .solid (by decide) rest
    exact hbrace.trans (ih (hapart.behind hbrace) nofun)
  | @list vs rest _ _ ih =>
    have hbracket : Supported .plain ('[' :: rest) rest := .solid (by decide) rest
    exact hbracket.trans (ih (hapart.behind hbracket) nofun)
  | scalar hscalar => exact supported_scalar hscalar
  | @field path v s after start rest hpath hstart _ ih =>
    have hkeys := supported_keyPath hpath hapart (hfield rfl) (head?_ne_of_fieldValue? hstart).2
    have hvalue := hkeys.trans (supported_fieldValue? hstart)
    exact hvalue.trans (ih (hapart.behind hvalue) nofun)
  | itemsEnd hreached => exact supported_closing hreached
  | @itemsCons v vs s rest next after _ hnext _ ihvalue ihitems =>
    have hgap := supported_afterGap s
    have hitem := hgap.trans (ihvalue (hapart.behind hgap) nofun)
    have hbetween := hitem.trans (supported_nextElement hnext)
    exact hbetween.trans (ihitems (hapart.behind hbetween) nofun)
  | fieldsEnd hreached => exact supported_closing hreached
  | @fieldsCons closing f fs s rest next after _ hnext _ ihfield ihfields =>
    have hgap := supported_afterGap s
    have hfirst := hgap.trans (ihfield (hapart.behind hgap) fun _ =>
      startsComment_of_afterGap (afterGap_afterGap s))
    have hbetween := hfirst.trans (supported_nextElement hnext)
    exact hbetween.trans (ihfields (hapart.behind hbetween) nofun)

end LeaderKey.Grammar
