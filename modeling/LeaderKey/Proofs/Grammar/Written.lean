import LeaderKey.Proofs.Grammar.Tail.Phrase
import LeaderKey.Proofs.Value.Merge

/-!
# Reading what is written

A printer of values writes each of them as a text that is read as a whole, with nothing behind it.
Here is what a printer needs to know of the readers: a text in quotes is read if every character in
it is (`quotedBody_flatMap`), an element is read before a comma and before a closing, whatever
blanks the printer puts there, and an object with its keys in quotes is read as its entries
(`Reads.object_of_fields`).
-/

namespace LeaderKey

/-- The fields that put the entries of an object in, one key each. -/
def Object.fields (o : Object) : List Field := o.map fun e => ⟨[e.1], e.2⟩

/-- An object whose keys are distinct is what its own fields describe. -/
theorem Object.ofFields_fields {o : Object} (h : o.keys.Nodup) : Object.ofFields o.fields = o := by
  calc Object.ofFields o.fields
      = o.foldl (fun o' e => Object.insert o' e.1 e.2) ([] : Object) := by
        -- A path of one key puts its value in under that key.
        unfold Object.ofFields Object.fields
        rw [List.foldl_map]
        rfl
    _ = Object.merge ([] : Object) o := (Object.merge_eq_foldl [] o).symm
    _ = o := Object.merge_nil h

namespace Grammar

open LeaderKey.Text

/-! ## Texts in quotes -/

/-- A character that is no quote, no backslash and no new line stands for itself in quotes. -/
theorem quotedBody_self {c : Char} (hquote : c ≠ '"') (hline : c ≠ '\n') (hescape : c ≠ '\\')
    (rest : List Char) : quotedBody (c :: rest) = (quotedBody rest).cons c := by
  rw [quotedBody, if_neg hquote, if_neg hline, if_neg hescape]

/-- A short escape stands for its character in quotes. -/
theorem quotedBody_escapedChar {e c : Char} (h : escapedChar? e = some c) (hu : e ≠ 'u')
    (rest : List Char) : quotedBody ('\\' :: e :: rest) = (quotedBody rest).cons c := by
  have hescape : escape (e :: rest) = .ok (c, rest) := by
    simp only [escape, if_neg hu, h]
  rw [quotedBody_backslash, hescape]

/-- A text in quotes is read if each of its characters is read back from what is written for it. -/
theorem quotedBody_flatMap {write : Char → List Char} {text : List Char}
    (h : ∀ c ∈ text, ∀ rest, quotedBody (write c ++ rest) = (quotedBody rest).cons c) :
    quotedBody (text.flatMap write ++ ['"']) = .ok (text, []) := by
  induction text with
  | nil =>
    rw [List.flatMap_nil, List.nil_append, quotedBody, if_pos rfl]
  | cons c text ih =>
    have htail := ih fun d hd => h d (List.mem_cons_of_mem _ hd)
    rw [List.flatMap_cons, List.append_assoc, h c List.mem_cons_self, htail]
    rfl

/-- A quote that is not the first of three begins a quoted token. -/
theorem token_of_not_triple {s : List Char} (h : ¬ ['"', '"'] <+: s) : token ('"' :: s) =
    (quotedBody s).map fun (text, after) => some (.quoted text, after) := by
  rw [token.eq_2]
  rintro r rfl
  exact h ⟨r, rfl⟩

/-- A quote that does not close at once begins a quoted token. -/
theorem token_of_quote {s : List Char} (h : s.head? ≠ some '"') : token ('"' :: s) =
    (quotedBody s).map fun (text, after) => some (.quoted text, after) := by
  refine token_of_not_triple ?_
  rintro ⟨r, rfl⟩
  exact h rfl

/-- A text in quotes is a token. -/
theorem token_quoted {body text : List Char} (h : quotedBody body = .ok (text, [])) :
    token ('"' :: body) = .ok (some (.quoted text, [])) := by
  by_cases hhead : body.head? = some '"'
  · -- The quote closes at once, and nothing is behind it.
    obtain ⟨t, rfl⟩ := List.head?_eq_some_iff.1 hhead
    rw [quotedBody, if_pos rfl] at h
    cases h
    decide +kernel
  · rw [token_of_quote hhead, h]
    rfl

/-- A text in quotes is a string. -/
theorem reads_quoted {body text : List Char} (h : quotedBody body = .ok (text, [])) :
    Reads (.value (.string (String.ofList text))) ('"' :: body) [] := by
  have hscalar := scalar_eq_some (token_quoted h) moreTokens_nil
  refine .scalar (hscalar.trans ?_)
  simp [tokensValue, Token.text]

/-! ## Blanks that a printer puts in -/

/-- Blanks and new lines belong to the gap. -/
theorem afterGap_blanks {g : List Char} (h : ∀ c ∈ g, isBlank c = true) (s : List Char) :
    afterGap (g ++ s) = afterGap s := by
  induction g with
  | nil => rfl
  | cons c g ih =>
    have htail := ih fun d hd => h d (List.mem_cons_of_mem _ hd)
    unfold afterGap at htail ⊢
    rw [List.cons_append, gap]
    -- A new line makes the gap cross a line, but the text behind the gap is the same.
    by_cases hline : c = '\n'
    · rw [if_pos hline]
      exact htail
    · have hinline : isInlineBlank c = true := by
        simp [isInlineBlank, hline, h c List.mem_cons_self]
      rw [if_neg hline, Bool.false_or, if_pos hinline]
      exact htail

/-- A space is a blank inside a line. -/
theorem isInlineBlank_of_mem_space : ∀ c ∈ [' '], isInlineBlank c = true :=
  List.forall_mem_singleton.2 rfl

/-- A space is a blank. -/
theorem isBlank_of_mem_space : ∀ c ∈ [' '], isBlank c = true := List.forall_mem_singleton.2 rfl

/-- The text of a closing. -/
def Closing.text : Closing → List Char
  | .brace => ['}']
  | .bracket => [']']
  | .endOfText => []

/-- There is no gap before a closing. -/
theorem Closing.afterGap_text (closing : Closing) : afterGap closing.text = closing.text := by
  cases closing <;> decide +kernel

/-- A list may end where its bracket is all that follows. -/
theorem reads_items_text {s : List Char} (h : afterGap s = Closing.bracket.text) :
    Reads (.items []) s [] := by
  have hend : Reads (.items []) s (Closing.bracket.skip (afterGap s)) := .itemsEnd (by rw [h]; rfl)
  rwa [h] at hend

/-- Fields may end where their closing is all that follows. -/
theorem reads_fields_text {closing : Closing} {s : List Char} (h : afterGap s = closing.text) :
    Reads (.fields closing []) s [] := by
  have hreached : closing.reached (afterGap s) = true := by
    rw [h]
    cases closing <;> rfl
  have hskip : closing.skip (afterGap s) = [] := by
    rw [h]
    cases closing <;> rfl
  have hend := Reads.fieldsEnd hreached
  rwa [hskip] at hend

/-! ## Elements -/

/-- An element that is written alone is read before a text where the next element may stand. -/
theorem Reads.before {p : Phrase} {w s next : List Char} {closing : Closing} (h : Reads p w [])
    (hp : p.HasEnd) (hw : afterGap w = w) (hnext : nextElement closing s = some next)
    (hslash : s.head? ≠ some '/') : Reads p (afterGap (w ++ s)) s := by
  -- Where the next element may stand, neither a token goes on nor does a slash begin a comment.
  have hlike : EndsLike [] s :=
    ⟨fun _ => ends_of_nextElement hnext, fun hhead => absurd hhead hslash⟩
  have hne : w ≠ [] := ne_nil_of_length_lt (h.suffix.2 hp) (List.append_nil w)
  have hself : afterGap (w ++ []) = w ++ [] := by rw [List.append_nil, hw]
  rw [afterGap_append_eq_self hne hself hlike.2]
  exact h.replace hp (List.append_nil w).symm hlike

/-- After a comma the next element may stand. -/
theorem nextElement_comma (closing : Closing) (s : List Char) :
    nextElement closing (',' :: s) = some s :=
  nextElement_of_comma (afterGap_eq_self_iff.2 ⟨by decide, rfl⟩)

/-- After blanks the closing may stand. -/
theorem nextElement_blanks {closing : Closing} {g s : List Char}
    (hg : ∀ c ∈ g, isBlank c = true) (h : closing.reached s = true) :
    nextElement closing (g ++ s) = some s := by
  have hgap : afterGap (g ++ s) = s := by rw [afterGap_blanks hg, afterGap_of_reached h]
  have hcomma : (afterGap (g ++ s)).head? ≠ some ',' := by
    rw [hgap]
    exact head?_ne_comma_of_reached h
  rw [nextElement_of_not_comma hcomma, hgap, h, Bool.or_true, if_pos rfl]

/-- Neither blanks nor a closing begin with a slash. -/
theorem head?_blanks_ne_slash {g : List Char} (hg : ∀ c ∈ g, isBlank c = true)
    (closing : Closing) : (g ++ closing.text).head? ≠ some '/' := by
  cases g with
  | nil => cases closing <;> decide
  | cons c g =>
    intro hhead
    obtain rfl : c = '/' := Option.some.inj hhead
    exact absurd (hg _ List.mem_cons_self) (by decide)

/-- Blanks before the items of a list. -/
theorem items_blanks {g : List Char} (hg : ∀ c ∈ g, isBlank c = true) (s : List Char) :
    items (g ++ s) = items s := by
  rw [items_eq, afterGap_blanks hg, ← items_eq]

/-- Blanks before the items of a list. -/
theorem Reads.items_blanks {vs : List Value} {g s : List Char} (h : Reads (.items vs) s [])
    (hg : ∀ c ∈ g, isBlank c = true) : Reads (.items vs) (g ++ s) [] :=
  h.items_of_afterGap_eq (afterGap_blanks hg s).symm

/-- An item before a comma, blanks and further items. -/
theorem Reads.items_comma {v : Value} {vs : List Value} {w g s : List Char}
    (h : Reads (.value v) w []) (hg : ∀ c ∈ g, isBlank c = true) (hs : Reads (.items vs) s []) :
    Reads (.items (v :: vs)) (w ++ ',' :: (g ++ s)) [] := by
  have hnext := nextElement_comma .bracket (g ++ s)
  have hvalue := h.before trivial (afterGap_of_value h.isRead) hnext (by simp)
  exact .itemsCons hvalue hnext (hs.items_blanks hg)

/-- The last item of a list. -/
theorem Reads.items_last {v : Value} {w g : List Char} (h : Reads (.value v) w [])
    (hg : ∀ c ∈ g, isBlank c = true) : Reads (.items [v]) (w ++ (g ++ [']'])) [] := by
  have hnext : nextElement .bracket (g ++ [']']) = some [']'] := nextElement_blanks hg rfl
  have hslash := head?_blanks_ne_slash hg .bracket
  have hvalue := h.before trivial (afterGap_of_value h.isRead) hnext hslash
  exact .itemsCons hvalue hnext (reads_items_text rfl)

/-! ## Entries -/

/-- A key in quotes before a colon is a key path. -/
theorem keyPath_quoted {body name : List Char} (h : quotedBody body = .ok (name, []))
    (s : List Char) :
    keyPath ('"' :: (body ++ ':' :: s)) = .ok (some ([String.ofList name], ':' :: s)) := by
  have hkey : key ('"' :: (body ++ ':' :: s)) = .ok (some (name, ':' :: s)) := by
    rw [← List.append_nil body] at h
    show (quotedBody (body ++ ':' :: s)).map some = _
    rw [quotedBody_replace h]
    rfl
  exact keyPath_eq_some hkey (moreKeys_of_not_dot (by simp))

/-- A colon and blanks lead to a value. -/
theorem fieldValue?_colon {b w : List Char} (hb : ∀ c ∈ b, isInlineBlank c = true)
    (hw : afterGap w = w) : fieldValue? (':' :: (b ++ w)) = some w := by
  rw [fieldValue?_of_separator rfl (Or.inl rfl), afterBlanks_append_blanks hb,
    afterBlanks_of_afterGap hw]

/-- A key in quotes and a value behind a colon and blanks are a field. -/
theorem reads_field_quoted {body name b w : List Char} {v : Value}
    (hname : quotedBody body = .ok (name, [])) (hb : ∀ c ∈ b, isInlineBlank c = true)
    (hw : Reads (.value v) w []) :
    Reads (.field ⟨[String.ofList name], v⟩) ('"' :: (body ++ ':' :: (b ++ w))) [] :=
  .field (keyPath_quoted hname _) (fieldValue?_colon hb (afterGap_of_value hw.isRead)) hw

/-- Blanks before the fields of an object. -/
theorem fields_blanks {g : List Char} (hg : ∀ c ∈ g, isBlank c = true) (closing : Closing)
    (s : List Char) : fields closing (g ++ s) = fields closing s :=
  fields_of_afterGap_eq (afterGap_blanks hg s) closing

/-- Blanks before the fields of an object. -/
theorem Reads.fields_blanks {closing : Closing} {fs : List Field} {g s : List Char}
    (h : Reads (.fields closing fs) s []) (hg : ∀ c ∈ g, isBlank c = true) :
    Reads (.fields closing fs) (g ++ s) [] :=
  h.of_afterGap_eq (afterGap_blanks hg s).symm

/-- There is no gap before a quote. -/
theorem afterGap_quote (s : List Char) : afterGap ('"' :: s) = '"' :: s :=
  afterGap_eq_self_iff.2 ⟨by decide, rfl⟩

/-- A field before a comma, blanks and further fields. -/
theorem Reads.fields_comma {f : Field} {fs : List Field} {w g s : List Char}
    (h : Reads (.field f) w []) (hself : afterGap w = w) (hg : ∀ c ∈ g, isBlank c = true)
    (hs : Reads (.fields .brace fs) s []) :
    Reads (.fields .brace (f :: fs)) (w ++ ',' :: (g ++ s)) [] := by
  have hnext := nextElement_comma .brace (g ++ s)
  exact .fieldsCons (h.before trivial hself hnext (by simp)) hnext (hs.fields_blanks hg)

/-- The last field of an object. -/
theorem Reads.fields_last {f : Field} {w g : List Char} (h : Reads (.field f) w [])
    (hself : afterGap w = w) (hg : ∀ c ∈ g, isBlank c = true) :
    Reads (.fields .brace [f]) (w ++ (g ++ ['}'])) [] := by
  have hnext : nextElement .brace (g ++ ['}']) = some ['}'] := nextElement_blanks hg rfl
  have hfield := h.before trivial hself hnext (head?_blanks_ne_slash hg .brace)
  exact .fieldsCons hfield hnext (reads_fields_text rfl)

/-- An object that is read from the fields of its entries. -/
theorem Reads.object_of_fields {o : Object} {s rest : List Char} (hkeys : o.keys.Nodup)
    (h : Reads (.fields .brace o.fields) s rest) : Reads (.value (.object o)) ('{' :: s) rest := by
  have hobject := Reads.object h
  rwa [Object.ofFields_fields hkeys] at hobject

end Grammar

/-- A text whose root fields are read is a document. -/
theorem Document.parse_of_document {s : List Char} {fs : List Field}
    (h : Grammar.document s = .ok fs) : parse (String.ofList s) = .ok ⟨Object.ofFields fs⟩ := by
  unfold parse
  rw [String.toList_ofList, h]

/-- A text that is an object as a whole is a document with that object as its root. -/
theorem Document.parse_of_object {s : List Char} {o : Object}
    (h : Grammar.Reads (.value (.object o)) ('{' :: s) []) :
    parse (String.ofList ('{' :: s)) = .ok ⟨o⟩ := by
  have hopen : Grammar.afterGap ('{' :: s) = '{' :: s :=
    Grammar.afterGap_eq_self_iff.2 ⟨by decide, rfl⟩
  obtain ⟨t, fs, heq, hfields, ho⟩ | ⟨_, _, heq, _⟩ | hscalar := Grammar.value_eq_ok h.isRead
  · cases heq
    cases ho
    exact parse_of_document (Grammar.document_of_brace hopen (Grammar.reads_of_fields hfields) rfl)
  · cases heq
  · rw [Grammar.scalar_eq_none (by decide) (by decide)] at hscalar
    cases hscalar

end LeaderKey
