import LeaderKey.Document

/-!
# What the readers read, step by step

`Reads` is the grammar as a relation: how a value, a field, the items of a list and the fields of an
object are made of their parts. `reads_of_value` and its companions say that the readers only read
what the relation allows, so a property of everything that is read follows by induction over the
relation. `Reads.isRead` is the converse: what the relation allows is what the readers read.
-/

namespace LeaderKey.Grammar

/-- What a reader of the nested part of the grammar gives. -/
inductive Phrase where
  /-- A value. -/
  | value (v : Value)
  /-- A field. -/
  | field (f : Field)
  /-- The items of a list. -/
  | items (vs : List Value)
  /-- The fields of an object, up to a closing. -/
  | fields (closing : Closing) (fs : List Field)

/-- A phrase stands at the front of a text, with another text after it. -/
inductive Reads : Phrase → List Char → List Char → Prop
  | object {fs : List Field} {rest after : List Char}
      (hfields : Reads (.fields .brace fs) rest after) :
      Reads (.value (.object (Object.ofFields fs))) ('{' :: rest) after
  | list {vs : List Value} {rest after : List Char} (hitems : Reads (.items vs) rest after) :
      Reads (.value (.list vs)) ('[' :: rest) after
  | scalar {v : Value} {s rest : List Char} (hscalar : scalar s = .ok (some (v, rest))) :
      Reads (.value v) s rest
  | field {path : List String} {v : Value} {s after start rest : List Char}
      (hpath : keyPath s = .ok (some (path, after))) (hstart : fieldValue? after = some start)
      (hvalue : Reads (.value v) start rest) : Reads (.field ⟨path, v⟩) s rest
  | itemsEnd {s : List Char} (hreached : Closing.bracket.reached (afterGap s) = true) :
      Reads (.items []) s (Closing.bracket.skip (afterGap s))
  | itemsCons {v : Value} {vs : List Value} {s rest next after : List Char}
      (hvalue : Reads (.value v) (afterGap s) rest) (hnext : nextElement .bracket rest = some next)
      (hitems : Reads (.items vs) next after) : Reads (.items (v :: vs)) s after
  | fieldsEnd {closing : Closing} {s : List Char}
      (hreached : closing.reached (afterGap s) = true) :
      Reads (.fields closing []) s (closing.skip (afterGap s))
  | fieldsCons {closing : Closing} {f : Field} {fs : List Field} {s rest next after : List Char}
      (hfield : Reads (.field f) (afterGap s) rest) (hnext : nextElement closing rest = some next)
      (hfields : Reads (.fields closing fs) next after) : Reads (.fields closing (f :: fs)) s after

/-! ## Readers make progress -/

/-- A reading without its bound comes from a reading with it. -/
theorem length_lt_of_forget {α : Type} {bound : Nat} {r : Except Fault (Reading α bound)} {a : α}
    {rest : List Char} (h : r.map Reading.forget = .ok (a, rest)) : rest.length < bound := by
  cases r with
  | error fault => cases h
  | ok r =>
    cases h
    exact r.length_lt

/-- The text after a value is shorter than the text with it. -/
theorem length_lt_of_value {s rest : List Char} {v : Value} (h : value s = .ok (v, rest)) :
    rest.length < s.length :=
  length_lt_of_forget h

/-- The text after a field is shorter than the text with it. -/
theorem length_lt_of_field {s rest : List Char} {f : Field} (h : field s = .ok (f, rest)) :
    rest.length < s.length :=
  length_lt_of_forget h

/-! ## Readers follow the relation -/

/-- What a mapped result comes from. -/
theorem of_map_eq_ok {α β : Type} {r : Except Fault α} {f : α → β} {b : β}
    (h : r.map f = .ok b) : ∃ a, r = .ok a ∧ f a = b := by
  cases r with
  | error fault => cases h
  | ok a => exact ⟨a, rfl, Except.ok.inj h⟩

/-- A value behind an opening brace is an object. -/
theorem value_brace (s : List Char) : value ('{' :: s) =
    (fields .brace s).map fun (fs, after) => (.object (Object.ofFields fs), after) := by
  rw [value_eq]
  rfl

/-- A value behind an opening bracket is a list. -/
theorem value_bracket (s : List Char) :
    value ('[' :: s) = (items s).map fun (vs, after) => (.list vs, after) := by
  rw [value_eq]
  rfl

/-- A value behind neither of the two is a scalar. -/
theorem value_of_scalar {s : List Char} (hbrace : s.head? ≠ some '{')
    (hbracket : s.head? ≠ some '[') :
    value s = match scalar s with
      | .error fault => .error fault
      | .ok none => .error ⟨.expectedValue, s⟩
      | .ok (some (v, rest)) => .ok (v, rest) := by
  rw [value_eq]
  split
  · exact absurd rfl hbrace
  · exact absurd rfl hbracket
  · rfl

/-- A value that is read is an object, a list or a scalar. -/
theorem value_eq_ok {s rest : List Char} {v : Value} (h : value s = .ok (v, rest)) :
    (∃ t fs, s = '{' :: t ∧ fields .brace t = .ok (fs, rest) ∧ v = .object (Object.ofFields fs)) ∨
      (∃ t vs, s = '[' :: t ∧ items t = .ok (vs, rest) ∧ v = .list vs) ∨
      scalar s = .ok (some (v, rest)) := by
  rw [value_eq] at h
  split at h
  · rename_i t
    obtain ⟨⟨fs, after⟩, hfields, heq⟩ := of_map_eq_ok h
    cases heq
    exact Or.inl ⟨t, fs, rfl, hfields, rfl⟩
  · rename_i t
    obtain ⟨⟨vs, after⟩, hitems, heq⟩ := of_map_eq_ok h
    cases heq
    exact Or.inr (Or.inl ⟨t, vs, rfl, hitems, rfl⟩)
  · split at h
    · cases h
    · cases h
    · rename_i hscalar
      cases h
      exact Or.inr (Or.inr hscalar)

/-- A field that is read is a key path, what leads to its value, and the value. -/
theorem field_eq_ok {s rest : List Char} {f : Field} (h : field s = .ok (f, rest)) :
    ∃ after start, keyPath s = .ok (some (f.path, after)) ∧ fieldValue? after = some start ∧
      value start = .ok (f.value, rest) := by
  rw [field_eq] at h
  split at h
  · cases h
  · cases h
  · rename_i path after hpath
    split at h
    · cases h
    · rename_i start hstart
      obtain ⟨⟨v, rest'⟩, hvalue, heq⟩ := of_map_eq_ok h
      cases heq
      exact ⟨after, start, hpath, hstart, hvalue⟩

/-! ### Elements

The items of a list and the fields of an object are read by the same loop, with other readers and
problems. -/

/-- One round of the loop over elements: they end at a closing, or `first` reads one of them and `more`
the others. -/
def elements {α : Type} (closing : Closing) (unclosed wrongEnd : Problem)
    (first : List Char → Result α) (more : List Char → Result (List α)) (s : List Char) :
    Result (List α) :=
  if closing.reached (afterGap s) then .ok ([], closing.skip (afterGap s))
  else if (afterGap s).isEmpty then .error ⟨unclosed, []⟩
  else
    match first (afterGap s) with
    | .error fault => .error fault
    | .ok (x, rest) =>
      match nextElement closing rest with
      | none => .error ⟨wrongEnd, afterGap rest⟩
      | some next => (more next).map fun (xs, after) => (x :: xs, after)

/-- The loop over items. -/
theorem items_eq_elements (s : List Char) : items s =
    elements .bracket .unterminatedList .expectedItemEnd value items s := by
  rw [items_eq, elements]
  rcases value (afterGap s) with fault | ⟨v, rest⟩
  · rfl
  · cases hnext : nextElement .bracket rest with
    | none => simp only [hnext]
    | some next => simp only [hnext]

/-- The loop over fields. -/
theorem fields_eq_elements (closing : Closing) (s : List Char) : fields closing s =
    elements closing .unterminatedObject .expectedFieldEnd field (fields closing) s := by
  rw [fields_eq, elements]
  rcases field (afterGap s) with fault | ⟨f, rest⟩
  · rfl
  · cases hnext : nextElement closing rest with
    | none => simp only [hnext]
    | some next => simp only [hnext]

/-- Elements that are read end at their closing, or go on with one more element. -/
theorem elements_eq_ok {α : Type} {closing : Closing} {unclosed wrongEnd : Problem}
    {first : List Char → Result α} {more : List Char → Result (List α)} {s after : List Char}
    {xs : List α} (h : elements closing unclosed wrongEnd first more s = .ok (xs, after)) :
    (closing.reached (afterGap s) = true ∧ xs = [] ∧ after = closing.skip (afterGap s)) ∨
      ∃ x rest next others, first (afterGap s) = .ok (x, rest) ∧
        nextElement closing rest = some next ∧ more next = .ok (others, after) ∧
        xs = x :: others := by
  unfold elements at h
  split at h
  · rename_i hreached
    cases h
    exact Or.inl ⟨hreached, rfl, rfl⟩
  · split at h
    · cases h
    · split at h
      · cases h
      · rename_i x rest hfirst
        split at h
        · cases h
        · rename_i next hnext
          obtain ⟨⟨others, after'⟩, hmore, heq⟩ := of_map_eq_ok h
          cases heq
          exact Or.inr ⟨x, rest, next, others, hfirst, hnext, hmore, rfl⟩

/-- Items that are read end at their bracket, or go on with one more item. -/
theorem items_eq_ok {s after : List Char} {vs : List Value} (h : items s = .ok (vs, after)) :
    (Closing.bracket.reached (afterGap s) = true ∧ vs = [] ∧
      after = Closing.bracket.skip (afterGap s)) ∨
      ∃ v rest next more, value (afterGap s) = .ok (v, rest) ∧
        nextElement .bracket rest = some next ∧ items next = .ok (more, after) ∧
        vs = v :: more :=
  elements_eq_ok ((items_eq_elements s).symm.trans h)

/-- Fields that are read end at their closing, or go on with one more field. -/
theorem fields_eq_ok {closing : Closing} {s after : List Char} {fs : List Field}
    (h : fields closing s = .ok (fs, after)) :
    (closing.reached (afterGap s) = true ∧ fs = [] ∧ after = closing.skip (afterGap s)) ∨
      ∃ f rest next more, field (afterGap s) = .ok (f, rest) ∧
        nextElement closing rest = some next ∧ fields closing next = .ok (more, after) ∧
        fs = f :: more :=
  elements_eq_ok ((fields_eq_elements closing s).symm.trans h)

/-! ### The nested readers together -/

mutual

/-- A value that is read stands there. -/
theorem reads_of_value {s rest : List Char} {v : Value} (h : value s = .ok (v, rest)) :
    Reads (.value v) s rest := by
  rcases value_eq_ok h with ⟨t, fs, hs, hfields, hv⟩ | ⟨t, vs, hs, hitems, hv⟩ | hscalar
  · have hlt : t.length < s.length := by rw [hs]; exact Nat.lt_succ_self _
    rw [hs, hv]
    exact .object (reads_of_fields hfields)
  · have hlt : t.length < s.length := by rw [hs]; exact Nat.lt_succ_self _
    rw [hs, hv]
    exact .list (reads_of_items hitems)
  · exact .scalar hscalar
termination_by 2 * s.length
decreasing_by all_goals omega

/-- A field that is read stands there. -/
theorem reads_of_field {s rest : List Char} {f : Field} (h : field s = .ok (f, rest)) :
    Reads (.field f) s rest := by
  obtain ⟨after, start, hpath, hstart, hvalue⟩ := field_eq_ok h
  have hafter := (keyPath_suffix hpath).2
  have hlt := (fieldValue?_suffix hstart).length_le
  exact .field hpath hstart (reads_of_value hvalue)
termination_by 2 * s.length
decreasing_by omega

/-- Items that are read stand there. -/
theorem reads_of_items {s after : List Char} {vs : List Value} (h : items s = .ok (vs, after)) :
    Reads (.items vs) s after := by
  rcases items_eq_ok h with
    ⟨hreached, hvs, hafter⟩ | ⟨v, rest, next, more, hvalue, hnext, hitems, hvs⟩
  · rw [hvs, hafter]
    exact .itemsEnd hreached
  · have hgap := afterGap_length_le s
    have hrest := length_lt_of_value hvalue
    have hle := (nextElement_suffix hnext).length_le
    rw [hvs]
    exact .itemsCons (reads_of_value hvalue) hnext (reads_of_items hitems)
termination_by 2 * s.length + 1
decreasing_by all_goals omega

/-- Fields that are read stand there. -/
theorem reads_of_fields {closing : Closing} {s after : List Char} {fs : List Field}
    (h : fields closing s = .ok (fs, after)) : Reads (.fields closing fs) s after := by
  rcases fields_eq_ok h with
    ⟨hreached, hfs, hafter⟩ | ⟨f, rest, next, more, hfield, hnext, hfields, hfs⟩
  · rw [hfs, hafter]
    exact .fieldsEnd hreached
  · have hgap := afterGap_length_le s
    have hrest := length_lt_of_field hfield
    have hle := (nextElement_suffix hnext).length_le
    rw [hfs]
    exact .fieldsCons (reads_of_field hfield) hnext (reads_of_fields hfields)
termination_by 2 * s.length + 1
decreasing_by all_goals omega

end

/-- The root fields of a text stand in it. -/
theorem reads_of_document {s : List Char} {fs : List Field} (h : document s = .ok fs) :
    ∃ closing start after, Reads (.fields closing fs) start after := by
  unfold document at h
  split at h
  · rename_i rest hstart
    split at h
    · cases h
    · rename_i fs' after hfields
      split at h
      · cases h
        exact ⟨.brace, rest, after, reads_of_fields hfields⟩
      · cases h
  · obtain ⟨⟨fs', after⟩, hfields, heq⟩ := of_map_eq_ok h
    cases heq
    exact ⟨.endOfText, _, after, reads_of_fields hfields⟩

/-! ## The relation follows the readers -/

/-- No bare word begins with a reserved character or a blank. -/
theorem bareWord_eq_nil {c : Char} (h : isBareChar c = false) (rest : List Char) :
    bareWord (c :: rest) = ([], c :: rest) := by
  rw [bareWord, h]
  rfl

/-- A token that begins with no quote is a bare word. -/
theorem token_of_not_quote {s : List Char} (h : s.head? ≠ some '"') :
    token s = match bareWord s with
      | ([], _) => .ok none
      | (word, after) => .ok (some (.bare word, after)) := by
  unfold token
  split
  · exact absurd rfl h
  · exact absurd rfl h
  · rfl

/-- No token begins with a character that is reserved and no quote. -/
theorem token_eq_none {c : Char} (hquote : c ≠ '"') (hbare : isBareChar c = false)
    (rest : List Char) : token (c :: rest) = .ok none := by
  rw [token_of_not_quote (by simpa using hquote), bareWord_eq_nil hbare]

/-- No scalar begins with a character that is reserved and no quote. -/
theorem scalar_eq_none {c : Char} (hquote : c ≠ '"') (hbare : isBareChar c = false)
    (rest : List Char) : scalar (c :: rest) = .ok none := by
  rw [scalar, token_eq_none hquote hbare]

/-- A key begins with a quote or with a key character. -/
theorem head_of_key {s name rest : List Char} (h : key s = .ok (some (name, rest))) :
    ∃ c t, s = c :: t ∧ (c = '"' ∨ isKeyChar c = true) := by
  unfold key at h
  split at h
  · rename_i t
    exact ⟨'"', t, rfl, Or.inl rfl⟩
  · cases s with
    | nil => cases h
    | cons c t =>
      cases hkey : isKeyChar c with
      | true => exact ⟨c, t, rfl, Or.inr hkey⟩
      | false =>
        rw [List.takeWhile_cons_of_neg (by simp [hkey])] at h
        cases h

/-- A key path begins with a quote or with a key character. -/
theorem head_of_keyPath {s rest : List Char} {path : List String}
    (h : keyPath s = .ok (some (path, rest))) :
    ∃ c t, s = c :: t ∧ (c = '"' ∨ isKeyChar c = true) := by
  unfold keyPath at h
  split at h
  · cases h
  · cases h
  · rename_i hkey
    exact head_of_key hkey

/-- A key path does not begin with a character that no bare key holds, other than a quote. -/
theorem head?_ne_of_keyPath {s rest : List Char} {path : List String}
    (h : keyPath s = .ok (some (path, rest))) {d : Char} (hquote : d ≠ '"')
    (hd : isKeyChar d = false) : s.head? ≠ some d := by
  obtain ⟨c, t, rfl, hc⟩ := head_of_keyPath h
  intro heq
  obtain rfl : c = d := Option.some.inj heq
  rcases hc with rfl | hc
  · exact hquote rfl
  · rw [hd] at hc
    cases hc

/-- Where an item is read, the list does not end. -/
theorem not_reached_of_value {s rest : List Char} {v : Value} (h : value s = .ok (v, rest)) :
    ¬ Closing.bracket.reached s = true := by
  intro hreached
  cases s with
  | nil => cases hreached
  | cons c t =>
    have hc : c = ']' := by simpa [Closing.reached] using hreached
    rcases value_eq_ok h with ⟨u, _, heq, _⟩ | ⟨u, _, heq, _⟩ | hscalar
    · rw [hc] at heq
      cases heq
    · rw [hc] at heq
      cases heq
    · rw [hc, scalar_eq_none (by decide) (by decide)] at hscalar
      cases hscalar

/-- Where a key path stands, the fields do not end. -/
theorem not_reached_of_keyPath {s rest : List Char} {path : List String}
    (h : keyPath s = .ok (some (path, rest))) (closing : Closing) : ¬ closing.reached s = true := by
  cases closing with
  | brace => simpa [Closing.reached] using head?_ne_of_keyPath h (d := '}') (by decide) (by decide)
  | bracket =>
    simpa [Closing.reached] using head?_ne_of_keyPath h (d := ']') (by decide) (by decide)
  | endOfText =>
    obtain ⟨c, t, rfl, _⟩ := head_of_keyPath h
    simp [Closing.reached]

/-- Where a field is read, the fields do not end. -/
theorem not_reached_of_field {s rest : List Char} {f : Field} (h : field s = .ok (f, rest))
    (closing : Closing) : ¬ closing.reached s = true := by
  obtain ⟨_, _, hpath, _⟩ := field_eq_ok h
  exact not_reached_of_keyPath hpath closing

/-- A field and the fields behind it. -/
theorem fields_cons {closing : Closing} {s rest next : List Char} {f : Field}
    (h : field (afterGap s) = .ok (f, rest)) (hnext : nextElement closing rest = some next) :
    fields closing s = (fields closing next).map fun (fs, after) => (f :: fs, after) := by
  have hempty : ¬ (afterGap s).isEmpty = true := not_reached_of_field h .endOfText
  rw [fields_eq, if_neg (not_reached_of_field h closing), if_neg hempty, h]
  dsimp only
  rw [hnext]

/-- The reader for phrases of this kind gives the phrase, and the text after it. -/
def Phrase.IsRead (s rest : List Char) : Phrase → Prop
  | .value v => Grammar.value s = .ok (v, rest)
  | .field f => Grammar.field s = .ok (f, rest)
  | .items vs => Grammar.items s = .ok (vs, rest)
  | .fields closing fs => Grammar.fields closing s = .ok (fs, rest)

/-- A phrase that stands there is read. -/
theorem Reads.isRead {p : Phrase} {s rest : List Char} (h : Reads p s rest) : p.IsRead s rest := by
  induction h with
  | @object fs rest after _ ih =>
    show value ('{' :: rest) = _
    have hfields : fields .brace rest = .ok (fs, after) := ih
    rw [value_brace, hfields]
    rfl
  | @list vs rest after _ ih =>
    show value ('[' :: rest) = _
    have hitems : items rest = .ok (vs, after) := ih
    rw [value_bracket, hitems]
    rfl
  | @scalar v s rest hscalar =>
    show value s = _
    rw [value_eq]
    split
    · rw [scalar_eq_none (by decide) (by decide)] at hscalar
      cases hscalar
    · rw [scalar_eq_none (by decide) (by decide)] at hscalar
      cases hscalar
    · rw [hscalar]
  | @field path v s after start rest hpath hstart _ ih =>
    show Grammar.field s = _
    have hvalue : value start = .ok (v, rest) := ih
    rw [field_eq, hpath]
    dsimp only
    rw [hstart]
    dsimp only
    rw [hvalue]
    rfl
  | @itemsEnd s hreached =>
    show items s = _
    rw [items_eq, if_pos hreached]
  | @itemsCons v vs s rest next after _ hnext _ ihvalue ihitems =>
    show items s = _
    have hvalue : value (afterGap s) = .ok (v, rest) := ihvalue
    have hitems : items next = .ok (vs, after) := ihitems
    have hempty : ¬ (afterGap s).isEmpty = true := by
      have hlt := length_lt_of_value hvalue
      rw [List.isEmpty_iff]
      rintro hnil
      rw [hnil] at hlt
      exact Nat.not_lt_zero _ hlt
    rw [items_eq, if_neg (not_reached_of_value hvalue), if_neg hempty, hvalue]
    dsimp only
    rw [hnext]
    dsimp only
    rw [hitems]
    rfl
  | @fieldsEnd closing s hreached =>
    show fields closing s = _
    rw [fields_eq, if_pos hreached]
  | @fieldsCons closing f fs s rest next after _ hnext _ ihfield ihfields =>
    show fields closing s = _
    have hfield : Grammar.field (afterGap s) = .ok (f, rest) := ihfield
    have hfields : fields closing next = .ok (fs, after) := ihfields
    rw [fields_cons hfield hnext, hfields]
    rfl

end LeaderKey.Grammar
