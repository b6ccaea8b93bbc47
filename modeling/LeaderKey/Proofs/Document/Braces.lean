import LeaderKey.Proofs.Grammar.Keyed
import LeaderKey.Proofs.Grammar.NextLine

/-!
# Braces around a config text

The fields of a text mean the same with and without braces around them. The closing brace stands on
a line of its own, so a comment at the end of the text does not hide it, and a missing comma is no
mistake. `Reads.braced` and `Reads.braceless` are the two directions: the fields that end with the
text are the fields that end with the brace below it. `Document.parse_braced` says it of whole
texts, and of a text put under a key, as an object and as the item of a list.
-/

namespace LeaderKey

namespace Grammar

open LeaderKey.Text

/-! ## The end of a phrase -/

/-- A bare word does not end in a blank. -/
theorem isBareChar_of_bareWord {c : Char} {s : List Char} (h : c ∈ (bareWord s).1) :
    isBareChar c = true := by
  induction s with
  | nil => cases h
  | cons d rest ih =>
    rw [bareWord] at h
    split at h
    · rename_i hbare
      rw [Bool.and_eq_true] at hbare
      rcases List.mem_cons.1 h with rfl | hmem
      · exact hbare.1
      · exact ih hmem
    · cases h

/-- A quoted text ends with its closing quote. -/
theorem quote_suffix_of_quotedBody {s text rest : List Char}
    (h : quotedBody s = .ok (text, rest)) : '"' :: rest <:+ s := by
  fun_induction quotedBody s generalizing text with
  | case1 => cases h
  | case2 =>
    cases h
    exact List.suffix_refl _
  | case3 => cases h
  | case4 r scalar after he _ _ ih =>
    obtain ⟨t, _, ht⟩ := Result.cons_eq_ok.1 h
    exact ((ih ht).trans (escape_suffix he).1).trans (List.suffix_cons _ _)
  | case5 => cases h
  | case6 c r _ _ _ ih =>
    obtain ⟨t, _, ht⟩ := Result.cons_eq_ok.1 h
    exact (ih ht).trans (List.suffix_cons _ _)

/-- A text in triple quotes ends with a quote. -/
theorem quote_suffix_of_tripleBody {s text rest : List Char}
    (h : tripleBody s = some (text, rest)) : '"' :: rest <:+ s := by
  fun_induction tripleBody s generalizing text with
  | case1 => cases h
  | case2 r =>
    cases h
    exact ⟨['"', '"'], rfl⟩
  | case3 c r _ ih =>
    obtain ⟨⟨t, u⟩, ht, hu⟩ := Option.map_eq_some_iff.1 h
    cases hu
    exact (ih ht).trans (List.suffix_cons _ _)

/-- The last character before `rest` in `s` is there, and it is no blank. -/
def EndsBefore (s rest : List Char) : Prop := ∃ c, c :: rest <:+ s ∧ isBlank c = false

/-- What stands further to the front does not matter to the end. -/
theorem EndsBefore.of_suffix {s t rest : List Char} (h : EndsBefore s rest) (hs : s <:+ t) :
    EndsBefore t rest := by
  obtain ⟨c, hc, hblank⟩ := h
  exact ⟨c, hc.trans hs, hblank⟩

/-- A token does not end in a blank. -/
theorem endsBefore_of_token {s rest : List Char} {t : Token}
    (h : token s = .ok (some (t, rest))) : EndsBefore s rest := by
  unfold token at h
  split at h
  · rename_i r
    split at h
    · rename_i text after hbody
      cases h
      exact ⟨'"', (quote_suffix_of_tripleBody hbody).trans ⟨['"', '"', '"'], rfl⟩, by decide⟩
    · cases h
  · rename_i r _
    obtain ⟨⟨text, after⟩, hbody, heq⟩ := of_map_eq_ok h
    cases heq
    exact ⟨'"', (quote_suffix_of_quotedBody hbody).trans (List.suffix_cons _ _), by decide⟩
  · split at h
    · cases h
    · rename_i word after hne hword
      cases h
      obtain ⟨front, c, rfl⟩ := (List.eq_nil_or_concat' word).resolve_left hne
      have hsplit := bareWord_append s
      rw [hword] at hsplit
      refine ⟨c, ⟨front, by rw [← hsplit]; simp⟩, ?_⟩
      have hbare : isBareChar c = true := isBareChar_of_bareWord (s := s) (by rw [hword]; simp)
      by_contra hblank
      rw [not_isBareChar_of_isBlank (by simpa using hblank)] at hbare
      cases hbare

/-- Further tokens end with the last of them. -/
theorem endsBefore_of_moreTokens {s rest : List Char} {ts : List (List Char × Token)}
    (h : moreTokens s = .ok (ts, rest)) : s = rest ∨ EndsBefore s rest := by
  fun_induction moreTokens s generalizing ts with
  | case1 => cases h
  | case2 =>
    cases h
    exact Or.inl rfl
  | case3 s t r ht ih =>
    obtain ⟨⟨more, after⟩, hmore, heq⟩ := of_map_eq_ok h
    cases heq
    right
    rcases ih hmore with rfl | hends
    · exact (endsBefore_of_token ht).of_suffix (afterBlanks_suffix s)
    · exact hends.of_suffix ((token_suffix ht).1.trans (afterBlanks_suffix s))

/-- A scalar does not end in a blank. -/
theorem endsBefore_of_scalar {s rest : List Char} {v : Value}
    (h : scalar s = .ok (some (v, rest))) : EndsBefore s rest := by
  unfold scalar at h
  split at h
  · cases h
  · cases h
  · rename_i first r ht
    obtain ⟨⟨more, after⟩, hmore, heq⟩ := of_map_eq_ok h
    cases heq
    rcases endsBefore_of_moreTokens hmore with rfl | hends
    · exact endsBefore_of_token ht
    · exact hends.of_suffix (token_suffix ht).1

/-- A closing bracket or brace is no blank. -/
theorem endsBefore_of_reached {closing : Closing} {s : List Char} (hclosing : closing ≠ .endOfText)
    (h : closing.reached s = true) : EndsBefore s (closing.skip s) := by
  have hne := ne_nil_of_reached hclosing h
  obtain rfl | ⟨c, t, rfl, rfl | rfl⟩ := reached_cases h
  · contradiction
  · rw [skip_cons hclosing]
    exact ⟨'}', List.suffix_refl _, by decide⟩
  · rw [skip_cons hclosing]
    exact ⟨']', List.suffix_refl _, by decide⟩

/-- A phrase that ends by itself does not end in a blank: it ends with a word, a quote, a bracket or
a brace. -/
theorem Reads.endsBefore {p : Phrase} {s rest : List Char} (h : Reads p s rest) (hp : p.HasEnd) :
    EndsBefore s rest := by
  induction h with
  | object _ ih => exact (ih nofun).of_suffix (List.suffix_cons _ _)
  | list _ ih => exact (ih trivial).of_suffix (List.suffix_cons _ _)
  | scalar hscalar => exact endsBefore_of_scalar hscalar
  | field hpath hstart _ ih =>
    exact (ih trivial).of_suffix ((fieldValue?_suffix hstart).trans (keyPath_suffix hpath).1)
  | itemsEnd hreached =>
    have hclosing : Closing.bracket ≠ .endOfText := by decide
    exact (endsBefore_of_reached hclosing hreached).of_suffix (afterGap_suffix _)
  | @itemsCons v vs s rest next after hvalue hnext _ _ ih =>
    have hbehind := ((nextElement_suffix hnext).trans hvalue.suffix.1).trans (afterGap_suffix s)
    exact (ih trivial).of_suffix hbehind
  | fieldsEnd hreached =>
    exact (endsBefore_of_reached hp hreached).of_suffix (afterGap_suffix _)
  | @fieldsCons closing f fs s rest next after hfield hnext _ _ ih =>
    have hbehind := ((nextElement_suffix hnext).trans hfield.suffix.1).trans (afterGap_suffix s)
    exact (ih hp).of_suffix hbehind

/-- What does not end in a blank does not end in a new line. -/
theorem not_endsBefore_newline (t rest : List Char) : ¬ EndsBefore (t ++ '\n' :: rest) rest := by
  rintro ⟨c, ⟨front, hfront⟩, hblank⟩
  have hlength : front.length = t.length := by
    have htotal := congrArg List.length hfront
    simp only [List.length_append, List.length_cons] at htotal
    omega
  obtain ⟨-, hcons⟩ := List.append_inj hfront hlength
  obtain rfl := (List.cons.inj hcons).1
  cases hblank

/-! ## The end of the text and the brace below it -/

/-- Where the text goes on with an element, it does not matter what would end the elements. -/
theorem nextElement_of_endOfText {s next : List Char} (closing : Closing)
    (h : nextElement .endOfText s = some next) (hnext : next ≠ []) :
    nextElement closing s = some next := by
  by_cases hcomma : (afterGap s).head? = some ','
  · obtain ⟨rest, hrest⟩ := List.head?_eq_some_iff.1 hcomma
    rw [nextElement_of_comma hrest] at h ⊢
    exact h
  · rw [nextElement_of_not_comma hcomma] at h ⊢
    split at h
    · rename_i hmay
      obtain rfl := Option.some.inj h
      have hend : Closing.endOfText.reached (afterGap s) = false := by
        simpa [Closing.reached] using hnext
      rw [hend, Bool.or_false] at hmay
      rw [hmay, Bool.true_or, if_pos rfl]
    · cases h

/-- The fields of a text without braces are the fields up to a brace on a line of its own below. -/
theorem Reads.braced {fs : List Field} {s after : List Char}
    (h : Reads (.fields .endOfText fs) s after) (more : List Char) :
    Reads (.fields .brace fs) (s ++ '\n' :: '}' :: more) more := by
  have hclosing : afterGap ('}' :: more) = '}' :: more :=
    afterGap_eq_self_iff.2 ⟨by decide, rfl⟩
  generalize hphrase : Phrase.fields .endOfText fs = p at h
  induction h generalizing fs with
  | @fieldsEnd closing s hreached =>
    cases hphrase
    have hgap : afterGap (s ++ '\n' :: '}' :: more) = '}' :: more := by
      rw [afterGap_append_of_nil _ (List.isEmpty_iff.1 hreached), hclosing]
    have hreached' : Closing.brace.reached (afterGap (s ++ '\n' :: '}' :: more)) = true := by
      rw [hgap]
      rfl
    have hend := Reads.fieldsEnd hreached'
    rwa [hgap] at hend
  | @fieldsCons closing f fs s rest next after hfield hnext hfields _ ih =>
    cases hphrase
    have hgap : afterGap s ≠ [] := hfield.ne_nil_of_field
    have hfirst : Reads (.field f) (afterGap (s ++ '\n' :: '}' :: more))
        (rest ++ '\n' :: '}' :: more) := by
      rw [afterGap_append _ hgap]
      exact hfield.append_line _ trivial
    have hmore : Reads (.fields .brace fs) (next ++ '\n' :: '}' :: more) more := ih rfl
    by_cases hnil : next = []
    · -- The text ends with this field, so the brace stands where the next one might.
      subst hnil
      obtain ⟨start, hstart, hgapStart⟩ := nextElement_append_of_nil hnext hclosing (by simp)
      have hne : start ≠ [] := by
        rintro rfl
        cases hgapStart
      refine .fieldsCons hfirst (nextElement_of_endOfText .brace hstart hne) ?_
      refine hmore.of_afterGap_eq ?_
      rw [hgapStart]
      exact hclosing
    · have hnext' := nextElement_append ('}' :: more) hnext hnil
      exact .fieldsCons hfirst (nextElement_of_endOfText .brace hnext' (by simp)) hmore
  | _ => cases hphrase

/-- What a reader may leave of a text with a brace on a line of its own below it. -/
theorem eq_of_suffix_append_brace {s rest : List Char} (h : rest <:+ s ++ ['\n', '}']) :
    rest = [] ∨ rest = ['}'] ∨ ∃ r, r <:+ s ∧ rest = r ++ ['\n', '}'] := by
  have hsplit : s ++ ['\n', '}'] = (s ++ ['\n']) ++ ['}'] := by simp
  rw [hsplit, List.suffix_concat_iff] at h
  obtain rfl | ⟨front, rfl, hfront⟩ := h
  · exact Or.inl rfl
  · right
    obtain rfl | ⟨r, rfl, hr⟩ := List.suffix_concat_iff.1 hfront
    · exact Or.inl rfl
    · exact Or.inr ⟨r, hr, by simp⟩

/-- A field whose text is followed by a brace on a line of its own leaves that line unread. -/
theorem Reads.exists_rest_of_field {f : Field} {s rest next : List Char}
    (h : Reads (.field f) (s ++ ['\n', '}']) rest) (hnext : nextElement .brace rest = some next) :
    ∃ r, rest = r ++ ['\n', '}'] ∧ Reads (.field f) s r := by
  rcases eq_of_suffix_append_brace h.suffix.1 with rfl | rfl | ⟨r, ⟨w, rfl⟩, rfl⟩
  · -- Behind the end of the text there is no next element.
    cases hnext
  · -- A field that leaves the brace alone would end in the new line, which is a blank.
    exact absurd (h.endsBefore trivial) (not_endsBefore_newline s ['}'])
  · refine ⟨r, rfl, h.replace trivial (List.append_assoc _ _ _) ?_⟩
    refine ⟨(ends_append_line ['}'] r).1, fun hslash => ?_⟩
    obtain ⟨t, rfl⟩ := List.head?_eq_some_iff.1 hslash
    rfl

/-- What follows a field before a brace on a line of its own: the brace, or what follows the field
in the text above that line, unless a brace ends the fields there already. -/
theorem nextElement_of_append_brace {r next : List Char}
    (h : nextElement .brace (r ++ ['\n', '}']) = some next) :
    (nextElement .endOfText r = some [] ∧ next = ['}']) ∨
      ∃ t, next = t ++ ['\n', '}'] ∧
        (nextElement .endOfText r = some t ∨ (afterGap t).head? = some '}') := by
  by_cases hgap : afterGap r = []
  · -- Only a gap is left of the text, so the next element would be the brace below it.
    have hbrace : afterGap (r ++ ['\n', '}']) = ['}'] := by
      rw [afterGap_append_of_nil _ hgap]
      decide +kernel
    rw [nextElement_of_not_comma (by rw [hbrace]; decide), crossesLine_append_of_nil _ hgap,
      Bool.true_or, if_pos rfl, hbrace] at h
    refine Or.inl ⟨?_, (Option.some.inj h).symm⟩
    rw [nextElement_of_not_comma (by rw [hgap]; decide), hgap]
    exact if_pos (Bool.or_true _)
  · right
    by_cases hcomma : (afterGap r).head? = some ','
    · obtain ⟨t, ht⟩ := List.head?_eq_some_iff.1 hcomma
      have hcomma' : afterGap (r ++ ['\n', '}']) = ',' :: (t ++ ['\n', '}']) := by
        rw [afterGap_append _ hgap, ht, List.cons_append]
      rw [nextElement_of_comma hcomma'] at h
      exact ⟨t, (Option.some.inj h).symm, Or.inl (nextElement_of_comma ht)⟩
    · have hcomma' : (afterGap (r ++ ['\n', '}'])).head? ≠ some ',' := by
        rw [afterGap_append _ hgap, List.head?_append_of_ne_nil _ hgap]
        exact hcomma
      rw [nextElement_of_not_comma hcomma', crossesLine_append _ hgap, afterGap_append _ hgap,
        reached_append hgap] at h
      split at h
      · rename_i hmay
        refine ⟨afterGap r, (Option.some.inj h).symm, ?_⟩
        rw [Bool.or_eq_true] at hmay
        rcases hmay with hline | hreached
        · left
          rw [nextElement_of_not_comma hcomma, hline, Bool.true_or, if_pos rfl]
        · right
          rw [afterGap_afterGap]
          simpa [Closing.reached] using hreached
      · cases h

/-- The fields up to a brace on a line of its own at the end of a text are the fields of the text
above that line. -/
theorem Reads.braceless {fs : List Field} {t : List Char}
    (h : Reads (.fields .brace fs) (t ++ ['\n', '}']) []) : Reads (.fields .endOfText fs) t [] := by
  have hbrace : afterGap ['}'] = ['}'] := by decide +kernel
  generalize hphrase : Phrase.fields .brace fs = p at h
  generalize hs : t ++ ['\n', '}'] = s at h
  generalize hafter : ([] : List Char) = after at h
  induction h generalizing fs t with
  | @fieldsEnd closing s hreached =>
    cases hphrase
    subst hs
    by_cases hgap : afterGap t = []
    · have hend : Closing.endOfText.reached (afterGap t) = true := List.isEmpty_iff.2 hgap
      have hread := Reads.fieldsEnd hend
      rw [hgap] at hread
      rw [← hafter]
      exact hread
    · -- A brace inside the text would leave the line below it unread.
      rw [afterGap_append _ hgap] at hafter
      have hlength := congrArg List.length hafter
      simp [Closing.skip] at hlength
  | @fieldsCons closing f fs s rest next after hfield hnext hfields _ ih =>
    cases hphrase
    subst hs hafter
    -- A field is read here, and the brace below the text is none.
    have hgap : afterGap t ≠ [] := by
      intro hgap
      rw [afterGap_append_of_nil _ hgap, hbrace] at hfield
      exact not_reached_of_field hfield.isRead .brace rfl
    rw [afterGap_append _ hgap] at hfield
    obtain ⟨r, rfl, hfield'⟩ := hfield.exists_rest_of_field hnext
    rcases nextElement_of_append_brace hnext with ⟨hnext', rfl⟩ | ⟨u, rfl, hnext' | hhead⟩
    · -- Only the brace follows, so there are no further fields.
      obtain ⟨_, rfl, _⟩ | ⟨g, _, _, _, hg, _⟩ := fields_eq_ok hfields.isRead
      · exact .fieldsCons hfield' hnext' (.fieldsEnd rfl)
      · rw [hbrace] at hg
        exact absurd rfl (not_reached_of_field hg .brace)
    · exact .fieldsCons hfield' hnext' (ih rfl rfl rfl)
    · have hread : Reads (.fields .endOfText fs) u [] := ih rfl rfl rfl
      refine absurd hhead (hread.head?_ne_of_fields (by decide) (by decide) fun _ => ?_)
      simp [Closing.reached]
  | _ => cases hphrase

/-! ## Whole texts -/

/-- No gap reaches over a brace on a line of its own. -/
theorem eq_nil_of_suffix_append_brace {s rest : List Char} (h : rest <:+ s ++ ['\n', '}'])
    (hgap : afterGap rest = []) : rest = [] := by
  have hbrace : afterGap ['}'] = ['}'] := by decide +kernel
  rcases eq_of_suffix_append_brace h with rfl | rfl | ⟨r, _, rfl⟩
  · rfl
  · rw [hbrace] at hgap
    cases hgap
  · by_cases hnil : afterGap r = []
    · rw [afterGap_append_of_nil _ hnil, hbrace] at hgap
      cases hgap
    · rw [afterGap_append _ hnil] at hgap
      simp at hgap

/-- Braces around a text without braces, the closing one on a line of its own, change nothing. -/
theorem document_braced_iff {s : List Char} {fs : List Field} (h : (afterGap s).head? ≠ some '{') :
    document s = .ok fs ↔ document ('{' :: (s ++ ['\n', '}'])) = .ok fs := by
  have hopen : afterGap ('{' :: (s ++ ['\n', '}'])) = '{' :: (s ++ ['\n', '}']) :=
    afterGap_eq_self_iff.2 ⟨by decide, rfl⟩
  rw [document_of_not_brace_iff h]
  constructor
  · intro hreads
    exact document_of_brace hopen (hreads.braced []) rfl
  · intro hread
    obtain ⟨after, hreads, hafter⟩ := document_of_brace_eq_ok hopen hread
    obtain rfl := eq_nil_of_suffix_append_brace hreads.suffix.1 hafter
    exact hreads.braceless

/-! ## Under a key -/

/-- A bare key is a key path, where no character of a bare word follows. -/
theorem keyPath_of_bare {k rest : List Char} (hk : k ≠ []) (hkey : ∀ c ∈ k, isKeyChar c = true)
    (hrest : ∀ c, rest.head? = some c → isBareChar c = false) :
    keyPath (k ++ rest) = .ok (some ([String.ofList k], rest)) := by
  obtain ⟨hend, hdot⟩ := ends_keyPath hrest
  obtain ⟨c, t, rfl⟩ := List.exists_cons_of_ne_nil hk
  have hquote : ((c :: t) ++ rest).head? ≠ some '"' := by
    intro hhead
    obtain rfl : c = '"' := Option.some.inj hhead
    exact absurd (hkey _ List.mem_cons_self) (by decide)
  have htake : ((c :: t) ++ rest).takeWhile isKeyChar = c :: t := by
    rw [List.takeWhile_append_of_pos hkey, hend, List.append_nil]
  have hdrop : ((c :: t) ++ rest).dropWhile isKeyChar = rest := by
    have hsplit := List.takeWhile_append_dropWhile (p := isKeyChar) (l := rest)
    rw [hend, List.nil_append] at hsplit
    rw [List.dropWhile_append_of_pos hkey, hsplit]
  refine keyPath_eq_some ?_ (moreKeys_of_not_dot hdot)
  rw [key_of_not_quote hquote, htake, hdrop]

/-- A bare key and a value behind it are a whole text with one field. A slash at the end of the key
begins no comment, because no slash leads to the value. -/
theorem document_of_bare {k rest start : List Char} {v : Value} (hk : k ≠ [])
    (hkey : ∀ c ∈ k, isKeyChar c = true) (hcomment : ¬ ['/', '/'] <:+: k)
    (hstart : fieldValue? rest = some start) (hvalue : Reads (.value v) start []) :
    document (k ++ rest) = .ok [⟨[String.ofList k], v⟩] := by
  have hrest := not_isBareChar_of_fieldValue? hstart
  have hpath := keyPath_of_bare hk hkey hrest
  have hfield : Reads (.field ⟨[String.ofList k], v⟩) (k ++ rest) [] := .field hpath hstart hvalue
  have hslashes : ¬ ['/', '/'] <+: k ++ rest := by
    rintro ⟨t, ht⟩
    match k, hk with
    | [c], _ =>
      -- The second slash would stand behind the key.
      have hsecond : '/' :: t = rest := (List.cons.inj ht).2
      have hslash : rest.head? = some '/' := by
        rw [← hsecond]
        rfl
      exact absurd (hrest '/' hslash) (by decide)
    | c :: d :: k, _ =>
      obtain ⟨rfl, hsecond⟩ := List.cons.inj ht
      obtain ⟨rfl, _⟩ := List.cons.inj hsecond
      exact hcomment ⟨[], k, rfl⟩
  have hself := afterGap_of_field hfield.isRead hslashes
  have hbrace : (afterGap (k ++ rest)).head? ≠ some '{' := by
    rw [hself]
    exact head?_ne_of_keyPath hpath (by decide) (by decide)
  have hnext : nextElement .endOfText [] = some [] := rfl
  rw [← hself] at hfield
  exact (document_of_not_brace_iff hbrace).2 (.fieldsCons hfield hnext (.fieldsEnd rfl))

end Grammar

open Grammar

namespace Document

/-- A text without braces around it describes the same object with braces around it, whatever stands
at its end, and is refused with them if it is refused without. Put in braces behind a bare key, or
in a list there, it describes its object under that key. -/
theorem parse_braced {text : String} (htext : (afterGap text.toList).head? ≠ some '{') :
    (∀ d, parse text = .ok d ↔ parse ("\x7b" ++ text ++ "\n\x7d") = .ok d) ∧
      ∀ d, parse text = .ok d → ∀ key : String, key.toList ≠ [] →
        (∀ c ∈ key.toList, isKeyChar c = true) → ¬ ['/', '/'] <:+: key.toList →
          parse (key ++ " \x7b" ++ text ++ "\n\x7d") = .ok ⟨[(key, .object d.root)]⟩ ∧
          parse (key ++ ": [\x7b" ++ text ++ "\n\x7d]") =
            .ok ⟨[(key, .list [.object d.root])]⟩ := by
  constructor
  · intro d
    have hbraced : ("\x7b" ++ text ++ "\n\x7d").toList = '{' :: (text.toList ++ ['\n', '}']) := by
      simp
    simp only [parse_eq_ok_iff, hbraced, document_braced_iff htext]
  · intro d hd key hne hkey hcomment
    obtain ⟨fs, hfs, rfl⟩ := parse_eq_ok_iff.1 hd
    have hreads := (document_of_not_brace_iff htext).1 hfs
    constructor
    · have happend : (key ++ " \x7b" ++ text ++ "\n\x7d").toList =
          key.toList ++ (' ' :: '{' :: (text.toList ++ ['\n', '}'])) := by simp
      have hstart : fieldValue? (' ' :: '{' :: (text.toList ++ ['\n', '}'])) =
          some ('{' :: (text.toList ++ ['\n', '}'])) := rfl
      have hdocument := document_of_bare hne hkey hcomment hstart (.object (hreads.braced []))
      rw [parse_eq_ok_iff, happend]
      exact ⟨_, hdocument, by rw [String.ofList_toList]; rfl⟩
    · have happend : (key ++ ": [\x7b" ++ text ++ "\n\x7d]").toList =
          key.toList ++ (':' :: ' ' :: '[' :: '{' :: (text.toList ++ ['\n', '}', ']'])) := by simp
      have hitem : Reads (.value (.object (Object.ofFields fs)))
          (afterGap ('{' :: (text.toList ++ ['\n', '}', ']']))) [']'] := by
        rw [afterGap_eq_self_iff.2 ⟨by decide, rfl⟩]
        exact .object (hreads.braced [']'])
      have hstart : fieldValue? (':' :: ' ' :: '[' :: '{' :: (text.toList ++ ['\n', '}', ']'])) =
          some ('[' :: '{' :: (text.toList ++ ['\n', '}', ']'])) := rfl
      have hdocument := document_of_bare hne hkey hcomment hstart
        (.list (.itemsCons hitem rfl (.itemsEnd rfl)))
      rw [parse_eq_ok_iff, happend]
      exact ⟨_, hdocument, by rw [String.ofList_toList]; rfl⟩

/-- A text that ends in a comma and in a comment with a brace, under a key that ends in a slash. -/
theorem parse_braced_commented :
    parse ("\x7b" ++ "a: [1], # \x7d" ++ "\n\x7d") = .ok ⟨[("a", .list [.number "1"])]⟩ ∧
      parse ("k/" ++ " \x7b" ++ "a: [1], # \x7d" ++ "\n\x7d") =
        .ok ⟨[("k/", .object [("a", .list [.number "1"])])]⟩ := by
  have htext : parse "a: [1], # \x7d" = .ok ⟨[("a", .list [.number "1"])]⟩ := by decide +kernel
  have hbrace : (afterGap "a: [1], # \x7d".toList).head? ≠ some '{' := by decide
  obtain ⟨hbraced, hunder⟩ := parse_braced hbrace
  have hkey : ∀ c ∈ "k/".toList, isKeyChar c = true := List.all_eq_true.1 rfl
  exact ⟨(hbraced _).1 htext, (hunder _ htext "k/" (by decide) hkey (by decide)).1⟩

end Document

end LeaderKey
