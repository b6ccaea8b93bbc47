import LeaderKey.Proofs.Grammar.Keyed
import LeaderKey.Proofs.Grammar.Written

/-!
# Shown documents read back

A document is shown as a config text again. That text is accepted unless a key or a string has a
character that is written by its code, as `\0` or `\u{…}`, because config texts have no such escapes
(`Text.WrittenByCode`). If it is accepted, it describes the object that was shown, entry by entry
(`Document.parse_shown`).
-/

namespace LeaderKey

/-! ## Characters in quotes -/

/-- The character is written in quotes by its code. -/
def Text.WrittenByCode (c : Char) : Prop :=
  quotedChar c = ['\\', '0'] ∨ ['\\', 'u', '{'] <+: quotedChar c

instance : DecidablePred Text.WrittenByCode := fun c =>
  inferInstanceAs (Decidable (Text.quotedChar c = ['\\', '0'] ∨
    ['\\', 'u', '{'] <+: Text.quotedChar c))

/-- All characters of a text are written in quotes as themselves or by a short escape. -/
def Text.Plain (text : String) : Prop := ∀ c ∈ text.toList, ¬ WrittenByCode c

namespace Grammar

open LeaderKey.Text

/-- A character that is not written by its code is read back. -/
theorem quotedBody_quotedChar {c : Char} (h : ¬ WrittenByCode c) (rest : List Char) :
    quotedBody (quotedChar c ++ rest) = (quotedBody rest).cons c := by
  unfold WrittenByCode quotedChar at h
  unfold quotedChar
  split_ifs at h ⊢ with hzero htab hreturn hline hquote hbackslash hself
  · exact absurd (Or.inl rfl) h
  · rw [htab]
    exact quotedBody_escapedChar rfl (by decide) rest
  · rw [hreturn]
    exact quotedBody_escapedChar rfl (by decide) rest
  · rw [hline]
    exact quotedBody_escapedChar rfl (by decide) rest
  · rw [hquote]
    exact quotedBody_escapedChar rfl (by decide) rest
  · rw [hbackslash]
    exact quotedBody_escapedChar rfl (by decide) rest
  · exact quotedBody_self hquote hline hbackslash rest
  · exact absurd (Or.inr (List.prefix_append _ _)) h

/-- A text of such characters is read back. -/
theorem quotedBody_quoted {text : String} (h : Plain text) :
    quotedBody (text.toList.flatMap quotedChar ++ ['"']) = .ok (text.toList, []) :=
  quotedBody_flatMap fun c hc => quotedBody_quotedChar (h c hc)

/-- A brace is no hexadecimal digit. -/
theorem escape_brace (s : List Char) : escape ('u' :: '{' :: s) = .error .badUnicodeEscape := by
  match s with
  | [] | [_] | [_, _] => rfl
  | a :: b :: c :: _ =>
    have hscalar : escapedScalar? '{' a b c = none := rfl
    simp only [escape, hscalar, if_true]

/-- A character that is written by its code is not read back: config texts have no escape for zero,
and escape a code point without braces. -/
theorem quotedBody_writtenByCode {c : Char} (h : WrittenByCode c) (rest : List Char) :
    ∃ fault, quotedBody (quotedChar c ++ rest) = .error fault := by
  rcases h with hzero | ⟨digits, hdigits⟩
  · rw [hzero]
    exact ⟨_, quotedBody_backslash _⟩
  · rw [← hdigits, List.append_assoc]
    have hbrace : quotedBody ('\\' :: 'u' :: '{' :: (digits ++ rest)) =
        .error ⟨.badUnicodeEscape, '\\' :: 'u' :: '{' :: (digits ++ rest)⟩ := by
      rw [quotedBody_backslash, escape_brace]
    exact ⟨_, hbrace⟩

/-- A text that is read back has no character that is written by its code. -/
theorem plain_of_quotedBody {text rest : List Char} {p : List Char × List Char}
    (h : quotedBody (text.flatMap quotedChar ++ rest) = .ok p) : ∀ c ∈ text, ¬ WrittenByCode c := by
  induction text generalizing p with
  | nil => nofun
  | cons c text ih =>
    rw [List.flatMap_cons, List.append_assoc] at h
    -- The first character must be readable; the text behind it is read as before.
    have hc : ¬ WrittenByCode c := by
      intro hcode
      obtain ⟨fault, hfault⟩ := quotedBody_writtenByCode hcode (text.flatMap quotedChar ++ rest)
      rw [hfault] at h
      cases h
    rw [quotedBody_quotedChar hc] at h
    obtain ⟨t, _, ht⟩ := Result.cons_eq_ok.1 h
    exact List.forall_mem_cons.2 ⟨hc, ih ht⟩

/-- What is written for a character begins with no quote. -/
theorem head?_quotedChar (c : Char) (s : List Char) :
    (quotedChar c ++ s).head? ≠ some '"' := by
  unfold quotedChar
  split_ifs with hzero htab hreturn hline hquote hbackslash hself
  all_goals simp [*]

end Grammar

/-! ## Numbers -/

/-- All numbers in a value are read back from their spelling. -/
inductive Value.NumbersRead : Value → Prop
  | null : NumbersRead .null
  | boolean (b : Bool) : NumbersRead (.boolean b)
  | number {spelling : String}
      (h : Grammar.scalar spelling.toList = .ok (some (.number spelling, []))) :
      NumbersRead (.number spelling)
  | string (text : String) : NumbersRead (.string text)
  | list {items : List Value} (hitems : ∀ v ∈ items, NumbersRead v) : NumbersRead (.list items)
  | object {entries : List (String × Value)} (hvalues : ∀ e ∈ entries, NumbersRead e.2) :
      NumbersRead (.object entries)

namespace Value.NumbersRead

/-- The numbers in an item of a list. -/
theorem of_list {items : List Value} (h : NumbersRead (.list items)) :
    ∀ v ∈ items, v.NumbersRead := by
  cases h
  assumption

/-- The numbers in a value of an object. -/
theorem of_object {entries : Object} (h : NumbersRead (.object entries)) :
    ∀ e ∈ entries, e.2.NumbersRead := by
  cases h
  assumption

/-- Objects hand down that their numbers are read back, and keep it. -/
theorem heritable : Heritable NumbersRead where
  empty := .object nofun
  value h he := h.of_object _ he
  tail h := .object fun e he => h.of_object e (List.mem_cons_of_mem _ he)
  alter h hnone hsome := by
    refine .object fun e he => ?_
    rcases Object.mem_alter he with hold | hnew | ⟨old, hold, hnew⟩
    · exact h.of_object e hold
    · rw [hnew]
      exact hnone
    · rw [hnew]
      exact hsome old (h.of_object _ hold)

end Value.NumbersRead

namespace Grammar

open LeaderKey.Text

/-- A bare word stands at the front of its text as it is. -/
theorem append_of_token_bare {s word rest : List Char}
    (h : token s = .ok (some (.bare word, rest))) : word ++ rest = s := by
  unfold token at h
  split at h
  · split at h
    · cases h
    · cases h
  · obtain ⟨_, _, heq⟩ := of_map_eq_ok h
    cases heq
  · split at h
    · cases h
    · rename_i word' after _ hword
      cases h
      rw [← bareWord_append s, hword]

/-- The number that a scalar is has the same spelling where it stands alone. -/
theorem numbersRead_of_scalar {s rest : List Char} {v : Value}
    (h : scalar s = .ok (some (v, rest))) : v.NumbersRead := by
  obtain rfl | ⟨b, rfl⟩ | ⟨text, rfl⟩ | ⟨word, after, ht, hword, rfl⟩ := scalar_cases h
  · exact .null
  · exact .boolean b
  · exact .string text
  · -- The word ended where it stood, and the end of the text ends it as well.
    have halone : token word = .ok (some (.bare word, [])) := by
      rw [← append_of_token_bare ht] at ht
      have hreplace : token (word ++ []) = .ok (some (.bare word, [])) :=
        token_replace ht nofun (fun _ => rfl) nofun
      rwa [List.append_nil] at hreplace
    have hscalar := scalar_eq_some halone moreTokens_nil
    refine .number ?_
    rw [String.toList_ofList, hscalar]
    exact congrArg (fun v => Except.ok (some (v, []))) hword

end Grammar

/-! ## What is shown is read -/

/-- A value of which everything is read back: it is keyed, and its numbers are read. -/
structure Value.Regular (v : Value) : Prop where
  /-- No object holds a key twice. -/
  keyed : v.Keyed
  /-- Numbers are spelled as numbers. -/
  numbers : v.NumbersRead

namespace Value

/-- The items of a regular list are regular. -/
theorem Regular.item {items : List Value} (h : Regular (.list items)) {v : Value}
    (hv : v ∈ items) : v.Regular := by
  obtain ⟨hkeyed, hnumbers⟩ := h
  cases hkeyed with
  | list hitems => exact ⟨hitems v hv, hnumbers.of_list v hv⟩

/-- The values of a regular object are regular. -/
theorem Regular.value {entries : Object} (h : Regular (.object entries)) {e : String × Value}
    (he : e ∈ entries) : e.2.Regular :=
  ⟨Object.Keyed.value h.keyed he, h.numbers.of_object e he⟩

mutual

/-- The keys and the strings anywhere in a value. -/
def texts : Value → List String
  | .null | .boolean _ | .number _ => []
  | .string text => [text]
  | .list items => itemTexts items
  | .object entries => entryTexts entries

/-- The keys and the strings anywhere in a list. -/
def itemTexts : List Value → List String
  | [] => []
  | item :: rest => texts item ++ itemTexts rest

/-- The keys and the strings anywhere in an object. -/
def entryTexts : List (String × Value) → List String
  | [] => []
  | (key, value) :: rest => key :: (texts value ++ entryTexts rest)

end

end Value

namespace Grammar

open LeaderKey.Text

/-- What stands between the quotes of a shown key, behind its colon, and then its value. -/
def entryTail (key : String) (w : List Char) : List Char :=
  (key.toList.flatMap quotedChar ++ ['"']) ++ ':' :: ([' '] ++ w)

/-- A shown entry is read as the field that puts it in. -/
theorem reads_entryTail {key : String} {v : Value} {w : List Char} (hkey : Plain key)
    (h : Reads (.value v) w []) : Reads (.field ⟨[key], v⟩) ('"' :: entryTail key w) [] := by
  have hfield := reads_field_quoted (quotedBody_quoted hkey) isInlineBlank_of_mem_space h
  rwa [String.ofList_toList] at hfield

mutual

/-- A shown value is read as the value. -/
theorem reads_shown : ∀ v : Value, v.Regular → (∀ t ∈ v.texts, Plain t) →
    Reads (.value v) v.shown []
  | .null, _, _ => .scalar (by decide +kernel)
  | .boolean true, _, _ => .scalar (by decide +kernel)
  | .boolean false, _, _ => .scalar (by decide +kernel)
  | .number spelling, h, _ => by
    cases h.numbers with
    | number hscalar => exact .scalar hscalar
  | .string text, _, ht => by
    have hplain : Plain text := ht text (List.mem_singleton_self text)
    have hread := reads_quoted (quotedBody_quoted hplain)
    rwa [String.ofList_toList] at hread
  | .list items, h, ht =>
    .list (reads_shownItems items (fun _ hv => h.item hv) ht)
  | .object entries, h, ht =>
    .object_of_fields (Object.Keyed.nodup h.keyed)
      (reads_shownEntries entries (fun _ he => h.value he) ht)

/-- Shown items are read as the items. -/
theorem reads_shownItems : ∀ vs : List Value, (∀ v ∈ vs, v.Regular) →
    (∀ t ∈ Value.itemTexts vs, Plain t) → Reads (.items vs) (Value.shownItems vs ++ [']']) []
  | [], _, _ => reads_items_text (by decide +kernel)
  | [item], h, ht => by
    have hitem := reads_shown item (h item List.mem_cons_self) fun t hmem =>
      ht t (List.mem_append_left _ hmem)
    exact hitem.items_last (g := []) nofun
  | item :: next :: rest, h, ht => by
    have hitem := reads_shown item (h item List.mem_cons_self) fun t hmem =>
      ht t (List.mem_append_left _ hmem)
    have hmore := reads_shownItems (next :: rest) (fun v hv => h v (List.mem_cons_of_mem _ hv))
      fun t hmem => ht t (List.mem_append_right _ hmem)
    rw [Value.shownItems, List.append_assoc]
    exact hitem.items_comma (g := [' ']) isBlank_of_mem_space hmore

/-- Shown entries are read as the fields that put them in. -/
theorem reads_shownEntries : ∀ entries : Object, (∀ e ∈ entries, e.2.Regular) →
    (∀ t ∈ Value.entryTexts entries, Plain t) →
    Reads (.fields .brace entries.fields) (Value.shownEntries entries ++ ['}']) []
  | [], _, _ => reads_fields_text (by decide +kernel)
  | [(key, value)], h, ht => by
    have hvalue := reads_shown value (h _ List.mem_cons_self) fun t hmem =>
      ht t (List.mem_cons_of_mem _ (List.mem_append_left _ hmem))
    exact (reads_entryTail (ht key List.mem_cons_self) hvalue).fields_last (afterGap_quote _)
      (g := []) nofun
  | (key, value) :: next :: rest, h, ht => by
    have hvalue := reads_shown value (h _ List.mem_cons_self) fun t hmem =>
      ht t (List.mem_cons_of_mem _ (List.mem_append_left _ hmem))
    have hmore := reads_shownEntries (next :: rest) (fun e he => h e (List.mem_cons_of_mem _ he))
      fun t hmem => ht t (List.mem_cons_of_mem _ (List.mem_append_right _ hmem))
    rw [Value.shownEntries, List.append_assoc]
    exact (reads_entryTail (ht key List.mem_cons_self) hvalue).fields_comma (afterGap_quote _)
      (g := [' ']) isBlank_of_mem_space hmore

end

/-! ## Only what can be read back is read -/

/-- There is no gap before a shown value, and no end of a list. -/
theorem shown_front {v : Value} (h : v.NumbersRead) : afterGap v.shown = v.shown ∧
    v.shown ≠ [] ∧ ¬ Closing.bracket.reached v.shown = true := by
  cases h with
  | null => decide +kernel
  | boolean b => cases b <;> decide +kernel
  | @number spelling hscalar =>
    have hvalue : value spelling.toList = .ok (.number spelling, []) :=
      (Reads.scalar hscalar).isRead
    have hlt : 0 < spelling.toList.length := length_lt_of_value hvalue
    exact ⟨afterGap_of_value hvalue, List.ne_nil_of_length_pos hlt, not_reached_of_value hvalue⟩
  | string text =>
    exact ⟨afterGap_eq_self_iff.2 ⟨by decide, rfl⟩, List.cons_ne_nil _ _, nofun⟩
  | list _ =>
    exact ⟨afterGap_eq_self_iff.2 ⟨by decide, rfl⟩, List.cons_ne_nil _ _, nofun⟩
  | object _ =>
    exact ⟨afterGap_eq_self_iff.2 ⟨by decide, rfl⟩, List.cons_ne_nil _ _, nofun⟩

/-- There is no gap before a shown value with a text behind it. -/
theorem afterGap_shown {v : Value} (h : v.NumbersRead) {s : List Char} (hs : s.head? ≠ some '/') :
    afterGap (v.shown ++ s) = v.shown ++ s := by
  obtain ⟨hgap, hne, _⟩ := shown_front h
  have hself : afterGap (v.shown ++ []) = v.shown ++ [] := by rw [List.append_nil, hgap]
  exact afterGap_append_eq_self hne hself fun hhead => absurd hhead hs

/-- Where items are read that begin with a shown value, that value is read. -/
theorem exists_value_of_items {v : Value} (h : v.NumbersRead) {s : List Char}
    {p : List Value × List Char} (hs : s.head? ≠ some '/') (hitems : items (v.shown ++ s) = .ok p) :
    ∃ r, value (v.shown ++ s) = .ok r := by
  obtain ⟨_, hne, hreached⟩ := shown_front h
  obtain ⟨hend, _⟩ | ⟨v', rest, _, _, hvalue, _⟩ := items_eq_ok hitems
  · rw [afterGap_shown h hs, reached_append hne] at hend
    exact absurd hend hreached
  · rw [afterGap_shown h hs] at hvalue
    exact ⟨_, hvalue⟩

/-- Behind a value that is read back, a comma and a space, the further items are read. -/
theorem items_behind {v : Value} {w s : List Char} (h : Reads (.value v) w [])
    {p : List Value × List Char} (hitems : items (w ++ ',' :: ([' '] ++ s)) = .ok p) :
    ∃ q, items s = .ok q := by
  have hnext := nextElement_comma .bracket ([' '] ++ s)
  have hread := (h.before trivial (afterGap_of_value h.isRead) hnext (by simp)).isRead
  obtain ⟨hend, _⟩ | ⟨_, _, _, _, hvalue, hnext', hmore, _⟩ := items_eq_ok hitems
  · exact absurd hend (not_reached_of_value hread)
  · obtain ⟨rfl, rfl⟩ := Prod.mk.inj (Except.ok.inj (hread.symm.trans hvalue))
    obtain rfl := Option.some.inj (hnext.symm.trans hnext')
    rw [items_blanks isBlank_of_mem_space] at hmore
    exact ⟨_, hmore⟩

/-- Where fields are read that begin with a quote, a field is read there. -/
theorem exists_field_of_fields {s : List Char} {p : List Field × List Char}
    (h : fields .brace ('"' :: s) = .ok p) : ∃ r, field ('"' :: s) = .ok r := by
  have hself : afterGap ('"' :: s) = '"' :: s := afterGap_eq_self_iff.2 ⟨by decide, rfl⟩
  obtain ⟨hend, _⟩ | ⟨f, rest, _, _, hfield, _⟩ := fields_eq_ok h
  · rw [hself] at hend
    cases hend
  · rw [hself] at hfield
    exact ⟨_, hfield⟩

/-- Behind a field that is read back, a comma and a space, the further fields are read. -/
theorem fields_behind {f : Field} {w s : List Char} (h : Reads (.field f) ('"' :: w) [])
    {p : List Field × List Char}
    (hfields : fields .brace ('"' :: (w ++ ',' :: ([' '] ++ s))) = .ok p) :
    ∃ q, fields .brace s = .ok q := by
  have hself : afterGap ('"' :: w) = '"' :: w := afterGap_eq_self_iff.2 ⟨by decide, rfl⟩
  have hnext := nextElement_comma .brace ([' '] ++ s)
  have hread := (h.before trivial hself hnext (by simp)).isRead
  obtain ⟨hend, _⟩ | ⟨_, _, _, _, hfield, hnext', hmore, _⟩ := fields_eq_ok hfields
  · exact absurd hend (not_reached_of_field hread .brace)
  · obtain ⟨rfl, rfl⟩ := Prod.mk.inj (Except.ok.inj (hread.symm.trans hfield))
    obtain rfl := Option.some.inj (hnext.symm.trans hnext')
    rw [fields_blanks isBlank_of_mem_space] at hmore
    exact ⟨_, hmore⟩

/-- A text behind an entry is behind its value. -/
theorem entryTail_append (key : String) (w s : List Char) :
    entryTail key w ++ s = entryTail key (w ++ s) := by
  simp [entryTail]

/-- Where a field is read that begins with a shown key, the key is plain. -/
theorem plain_of_field {key : String} {w : List Char} {p : Field × List Char}
    (h : field ('"' :: entryTail key w) = .ok p) : Plain key := by
  obtain ⟨_, _, hpath, _⟩ := field_eq_ok h
  unfold keyPath at hpath
  split at hpath
  · cases hpath
  · cases hpath
  · rename_i hkey
    obtain ⟨_, hquoted, _⟩ := of_map_eq_ok hkey
    rw [entryTail, List.append_assoc] at hquoted
    exact plain_of_quotedBody hquoted

/-- Where a field is read that begins with a shown key and a shown value, the value is read. -/
theorem exists_value_of_field {key : String} {v : Value} (hkey : Plain key) (hv : v.NumbersRead)
    {s : List Char} (hs : s.head? ≠ some '/') {p : Field × List Char}
    (h : field ('"' :: entryTail key (v.shown ++ s)) = .ok p) :
    ∃ r, value (v.shown ++ s) = .ok r := by
  obtain ⟨_, _, hpath, hstart, hvalue⟩ := field_eq_ok h
  have hpath' := keyPath_quoted (quotedBody_quoted hkey) ([' '] ++ (v.shown ++ s))
  obtain ⟨_, rfl⟩ := Prod.mk.inj (Option.some.inj (Except.ok.inj (hpath'.symm.trans hpath)))
  have hstart' := fieldValue?_colon isInlineBlank_of_mem_space (afterGap_shown hv hs)
  obtain rfl := Option.some.inj (hstart'.symm.trans hstart)
  exact ⟨_, hvalue⟩

/-- Where a shown string is read, it is plain. -/
theorem plain_of_string {text : String} {s : List Char} {p : Value × List Char}
    (h : value ((Value.string text).shown ++ s) = .ok p) : Plain text := by
  obtain ⟨_, _, heq, _⟩ | ⟨_, _, heq, _⟩ | hscalar := value_eq_ok h
  · cases heq
  · cases heq
  · by_cases hnil : text.toList = []
    · -- Two quotes may begin a triple quote here, but the text has no characters anyway.
      intro c hc
      rw [hnil] at hc
      cases hc
    · obtain ⟨c, t, hct⟩ := List.exists_cons_of_ne_nil hnil
      have hshown : (Value.string text).shown ++ s =
          '"' :: (text.toList.flatMap quotedChar ++ (['"'] ++ s)) := by
        simp [Value.shown, quoted]
      have hhead : (text.toList.flatMap quotedChar ++ (['"'] ++ s)).head? ≠ some '"' := by
        rw [hct, List.flatMap_cons, List.append_assoc]
        exact head?_quotedChar c _
      rw [hshown] at hscalar
      unfold scalar at hscalar
      rw [token_of_quote hhead] at hscalar
      split at hscalar
      · cases hscalar
      · cases hscalar
      · rename_i htoken
        obtain ⟨_, hquoted, _⟩ := of_map_eq_ok htoken
        exact plain_of_quotedBody hquoted

mutual

/-- Where a shown value is read, all texts in it are plain. -/
theorem plain_of_value : ∀ v : Value, v.Regular → ∀ {s : List Char} {p : Value × List Char},
    value (v.shown ++ s) = .ok p → ∀ t ∈ v.texts, Plain t
  | .null, _, _, _, _ | .boolean _, _, _, _, _ | .number _, _, _, _, _ => nofun
  | .string text, _, _, _, hvalue => by
    intro t ht
    rw [List.mem_singleton.1 ht]
    exact plain_of_string hvalue
  | .list items, h, s, _, hvalue => by
    obtain ⟨_, _, heq, _⟩ | ⟨t, _, heq, hitems, _⟩ | hscalar := value_eq_ok hvalue
    · cases heq
    · cases heq
      exact plain_of_items items (fun _ hv => h.item hv) hitems
    · rw [Value.shown, List.cons_append, scalar_eq_none (by decide) (by decide)] at hscalar
      cases hscalar
  | .object entries, h, s, _, hvalue => by
    obtain ⟨t, _, heq, hfields, _⟩ | ⟨_, _, heq, _⟩ | hscalar := value_eq_ok hvalue
    · cases heq
      exact plain_of_fields entries (fun _ he => h.value he) hfields
    · cases heq
    · rw [Value.shown, List.cons_append, scalar_eq_none (by decide) (by decide)] at hscalar
      cases hscalar

/-- Where shown items are read, all texts in them are plain. -/
theorem plain_of_items : ∀ vs : List Value, (∀ v ∈ vs, v.Regular) →
    ∀ {s : List Char} {p : List Value × List Char},
      items ((Value.shownItems vs ++ [']']) ++ s) = .ok p → ∀ t ∈ Value.itemTexts vs, Plain t
  | [], _, _, _, _ => nofun
  | [item], h, s, _, hitems => by
    have hregular := h item List.mem_cons_self
    rw [Value.shownItems, List.append_assoc] at hitems
    obtain ⟨r, hr⟩ := exists_value_of_items hregular.numbers (by simp) hitems
    intro t ht
    rw [Value.itemTexts, Value.itemTexts, List.append_nil] at ht
    exact plain_of_value item hregular hr t ht
  | item :: next :: rest, h, s, _, hitems => by
    have hregular := h item List.mem_cons_self
    have hassoc : Value.shownItems (item :: next :: rest) ++ [']'] ++ s =
        item.shown ++ ',' :: ([' '] ++ (Value.shownItems (next :: rest) ++ [']'] ++ s)) := by
      simp [Value.shownItems]
    rw [hassoc] at hitems
    obtain ⟨r, hr⟩ := exists_value_of_items hregular.numbers (by simp) hitems
    -- The first item is plain, so it is read as itself, and the others are read behind the comma.
    have hitem := plain_of_value item hregular hr
    obtain ⟨q, hq⟩ := items_behind (reads_shown item hregular hitem) hitems
    have hmore := plain_of_items (next :: rest) (fun v hv => h v (List.mem_cons_of_mem _ hv)) hq
    intro t ht
    exact (List.mem_append.1 ht).elim (hitem t) (hmore t)

/-- Where shown entries are read, all texts in them are plain. -/
theorem plain_of_fields : ∀ entries : Object, (∀ e ∈ entries, e.2.Regular) →
    ∀ {s : List Char} {p : List Field × List Char},
      fields .brace ((Value.shownEntries entries ++ ['}']) ++ s) = .ok p →
        ∀ t ∈ Value.entryTexts entries, Plain t
  | [], _, _, _, _ => nofun
  | [(key, v)], h, s, _, hfields => by
    have hregular : v.Regular := h _ List.mem_cons_self
    have hassoc : Value.shownEntries [(key, v)] ++ ['}'] ++ s =
        '"' :: entryTail key (v.shown ++ (['}'] ++ s)) := by
      simp [Value.shownEntries, quoted, entryTail]
    rw [hassoc] at hfields
    obtain ⟨r, hr⟩ := exists_field_of_fields hfields
    have hkey := plain_of_field hr
    obtain ⟨q, hq⟩ := exists_value_of_field hkey hregular.numbers (by simp) hr
    have hvalue := plain_of_value v hregular hq
    intro t ht
    rw [Value.entryTexts, Value.entryTexts, List.append_nil] at ht
    rcases List.mem_cons.1 ht with rfl | hmem
    · exact hkey
    · exact hvalue t hmem
  | (key, v) :: next :: rest, h, s, _, hfields => by
    have hregular : v.Regular := h _ List.mem_cons_self
    have hassoc : Value.shownEntries ((key, v) :: next :: rest) ++ ['}'] ++ s =
        '"' :: entryTail key (v.shown ++ ',' ::
          ([' '] ++ (Value.shownEntries (next :: rest) ++ ['}'] ++ s))) := by
      simp [Value.shownEntries, quoted, entryTail]
    rw [hassoc] at hfields
    obtain ⟨r, hr⟩ := exists_field_of_fields hfields
    have hkey := plain_of_field hr
    obtain ⟨q, hq⟩ := exists_value_of_field hkey hregular.numbers (by simp) hr
    have hvalue := plain_of_value v hregular hq
    rw [← entryTail_append] at hfields
    obtain ⟨u, hu⟩ := fields_behind (reads_entryTail hkey (reads_shown v hregular hvalue)) hfields
    have hmore := plain_of_fields (next :: rest) (fun e he => h e (List.mem_cons_of_mem _ he)) hu
    intro t ht
    rcases List.mem_cons.1 ht with rfl | hmem
    · exact hkey
    · exact (List.mem_append.1 hmem).elim (hvalue t) (hmore t)

end

end Grammar

open Grammar

namespace Document

/-- The root of a parsed document is regular. -/
theorem regular_of_parse {text : String} {d : Document} (h : parse text = .ok d) :
    (Value.object d.root).Regular :=
  ⟨keyed_of_parse h, all_of_parse Value.NumbersRead.heritable (fun _ hitems => .list hitems)
    numbersRead_of_scalar h⟩

/-- A parsed document that is shown is accepted exactly if no key and no string in it has a
character that is written by its code, and it then has the root that was shown. -/
theorem parse_shown {text : String} {d : Document} (h : parse text = .ok d) :
    ((∃ shown, parse d.root.toText = .ok shown) ↔
      ∀ t ∈ (Value.object d.root).texts, ∀ c ∈ t.toList, ¬ Text.WrittenByCode c) ∧
      ∀ shown : Document, parse d.root.toText = .ok shown → shown.root = d.root := by
  have hregular := regular_of_parse h
  have hforward : (∀ t ∈ (Value.object d.root).texts, Text.Plain t) →
      parse d.root.toText = .ok d := fun hplain =>
    parse_of_object (reads_shown _ hregular hplain)
  have hback : ∀ shown : Document, parse d.root.toText = .ok shown →
      ∀ t ∈ (Value.object d.root).texts, Text.Plain t := by
    intro shown hshown
    obtain ⟨fs, hfs, _⟩ := parse_eq_ok_iff.1 hshown
    have hopen : afterGap d.root.toText.toList =
        '{' :: (Value.shownEntries d.root ++ ['}']) := by
      rw [Object.toText, Value.toText, String.toList_ofList]
      exact afterGap_eq_self_iff.2 ⟨by decide, rfl⟩
    obtain ⟨after, hread, _⟩ := document_of_brace_eq_ok hopen hfs
    have hfields : fields .brace (Value.shownEntries d.root ++ ['}']) = .ok (fs, after) :=
      hread.isRead
    rw [← List.append_nil (Value.shownEntries d.root ++ ['}'])] at hfields
    exact plain_of_fields d.root (fun _ he => hregular.value he) hfields
  refine ⟨⟨fun ⟨shown, hshown⟩ => hback shown hshown, fun hplain => ⟨d, hforward hplain⟩⟩, ?_⟩
  intro shown hshown
  rw [hforward (hback shown hshown)] at hshown
  rw [Except.ok.inj hshown]

/-- An empty key, a string like a keyword, a number and a new line come back; a delete character,
which a config text can have by its code, does not. -/
theorem parse_shown_mixed :
    (∃ shown, parse (Object.toText
      [("", .string "null"), ("b", .list [.number "1.50", .string "\"\n"])]) = .ok shown) ∧
      ¬ ∃ shown, parse (Object.toText [("a", .object [("b", .string "\x7f")])]) = .ok shown := by
  have hplain : parse "\"\": \"null\", b: [1.50, \"\\\"\\n\"]" =
      .ok ⟨[("", .string "null"), ("b", .list [.number "1.50", .string "\"\n"])]⟩ := by
    decide +kernel
  have hcode : parse "a.b: \"\\u007f\"" = .ok ⟨[("a", .object [("b", .string "\x7f")])]⟩ := by
    decide +kernel
  have hshort : (Value.object [("", .string "null"),
      ("b", .list [.number "1.50", .string "\"\n"])]).texts.all
        (fun t => t.toList.all fun c => decide (¬ Text.WrittenByCode c)) = true := by
    decide +kernel
  refine ⟨(parse_shown hplain).1.2 fun t ht c hc => ?_, fun hshown => ?_⟩
  · exact of_decide_eq_true (List.all_eq_true.1 (List.all_eq_true.1 hshort t ht) c hc)
  · have hall := (parse_shown hcode).1.1 hshown "\x7f" (by decide) '\x7f' (by decide)
    exact hall (by decide +kernel)

end Document
end LeaderKey
