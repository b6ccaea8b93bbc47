import LeaderKey.Grammar.KeyPath

/-!
# Objects, lists and fields

The nested part of the grammar. `value`, `field`, `items` and `fields` read what their names say
and give it with the text that follows. They call each other on ever shorter texts: `readValue`
and its companions carry the bound with what they read, and are the definitions by recursion;
`value_eq`, `field_eq`, `items_eq` and `fields_eq` are the grammar's equations without the bounds.
-/

namespace LeaderKey

/-- A field of an object: a path of keys and the value to put there. -/
structure Field where
  /-- The keys, from the outside in. -/
  path : List String
  /-- The value under the path. -/
  value : Value
  deriving DecidableEq

/-- The object that a list of fields describes: each field is inserted in turn. -/
def Object.ofFields (fs : List Field) : Object :=
  fs.foldl (fun o f => o.insertPath f.path f.value) []

namespace Grammar

/-- What ends a list of fields or items. -/
inductive Closing where
  /-- The brace of an object. -/
  | brace
  /-- The bracket of a list. -/
  | bracket
  /-- The end of a text whose root object has no braces. -/
  | endOfText
  deriving DecidableEq, Repr

namespace Closing

/-- Whether the closing stands here. -/
def reached : Closing → List Char → Bool
  | .brace, s => s.head? == some '}'
  | .bracket, s => s.head? == some ']'
  | .endOfText, s => s.isEmpty

/-- The text after a closing that stands here. -/
def skip : Closing → List Char → List Char
  | .endOfText, s => s
  | _, s => s.tail

/-- Skipping a closing adds nothing. -/
theorem skip_suffix (closing : Closing) (s : List Char) : closing.skip s <:+ s := by
  cases closing
  · exact List.tail_suffix s
  · exact List.tail_suffix s
  · exact List.suffix_refl s

end Closing

/-- The text where the next field or item may stand, or the closing: a comma, a new line or the
closing itself must follow the one before. -/
def nextElement (closing : Closing) (s : List Char) : Option (List Char) :=
  match afterGap s with
  | ',' :: rest => some rest
  | rest => if crossesLine s || closing.reached rest then some rest else none

/-- What stands between two elements is not negative. -/
theorem nextElement_suffix {closing : Closing} {s rest : List Char}
    (h : nextElement closing s = some rest) : rest <:+ s := by
  unfold nextElement at h
  split at h
  · rename_i r hs
    cases h
    exact (List.suffix_cons ',' _).trans (hs ▸ afterGap_suffix s)
  · split at h
    · cases h
      exact afterGap_suffix s
    · simp at h

/-- The value of a field after its key: what stands after `:` or `=`, or right here before a brace.
-/
def fieldValue? (s : List Char) : Option (List Char) :=
  match afterBlanks s with
  | '{' :: rest => some ('{' :: rest)
  | ':' :: rest => some (afterBlanks rest)
  | '=' :: rest => some (afterBlanks rest)
  | _ => none

/-- What leads from a key to its value is not negative. -/
theorem fieldValue?_suffix {s rest : List Char} (h : fieldValue? s = some rest) : rest <:+ s := by
  have hs := afterBlanks_suffix s
  unfold fieldValue? at h
  split at h
  · rename_i heq; cases h; exact heq ▸ hs
  · rename_i r heq; cases h
    exact ((afterBlanks_suffix r).trans (List.suffix_cons _ _)).trans (heq ▸ hs)
  · rename_i r heq; cases h
    exact ((afterBlanks_suffix r).trans (List.suffix_cons _ _)).trans (heq ▸ hs)
  · simp at h

/-- Something read, and the text after it, whose length is below a bound. -/
structure Reading (α : Type) (bound : Nat) where
  /-- What was read. -/
  value : α
  /-- The text after it. -/
  rest : List Char
  /-- The text after it is shorter than the bound. -/
  length_lt : rest.length < bound

mutual

/-- Reads a value. -/
def readValue (s : List Char) : Except Fault (Reading Value s.length) :=
  match s with
  | '{' :: rest =>
    match readFields .brace rest with
    | .error fault => .error fault
    | .ok r => .ok ⟨.object (Object.ofFields r.value), r.rest, r.length_lt⟩
  | '[' :: rest =>
    match readItems rest with
    | .error fault => .error fault
    | .ok r => .ok ⟨.list r.value, r.rest, r.length_lt⟩
  | s =>
    match h : scalar s with
    | .error fault => .error fault
    | .ok none => .error ⟨.expectedValue, s⟩
    | .ok (some (v, rest)) => .ok ⟨v, rest, (scalar_suffix h).2⟩
termination_by 2 * s.length
decreasing_by all_goals simp only [List.length_cons]; omega

/-- Reads a field. -/
def readField (s : List Char) : Except Fault (Reading Field s.length) :=
  match hp : keyPath s with
  | .error fault => .error fault
  | .ok none => .error ⟨.expectedKey, s⟩
  | .ok (some (path, after)) =>
    match hv : fieldValue? after with
    | none => .error ⟨.expectedSeparator, afterBlanks after⟩
    | some start =>
      match readValue start with
      | .error fault => .error fault
      | .ok r => .ok ⟨⟨path, r.value⟩, r.rest, by
          have := (keyPath_suffix hp).2
          have := (fieldValue?_suffix hv).length_le
          have := r.length_lt
          omega⟩
termination_by 2 * s.length
decreasing_by
  have := (keyPath_suffix hp).2
  have := (fieldValue?_suffix hv).length_le
  omega

/-- Reads the items of a list after its bracket, up to and with the closing one. -/
def readItems (s : List Char) : Except Fault (Reading (List Value) (s.length + 1)) :=
  if Closing.bracket.reached (afterGap s) then
    .ok ⟨[], Closing.bracket.skip (afterGap s), by
      have := ((Closing.bracket.skip_suffix _).trans (afterGap_suffix s)).length_le
      omega⟩
  else if (afterGap s).isEmpty then .error ⟨.unterminatedList, []⟩
  else
    match readValue (afterGap s) with
    | .error fault => .error fault
    | .ok item =>
      match hn : nextElement .bracket item.rest with
      | none => .error ⟨.expectedItemEnd, afterGap item.rest⟩
      | some next =>
        match readItems next with
        | .error fault => .error fault
        | .ok r => .ok ⟨item.value :: r.value, r.rest, by
            have := (nextElement_suffix hn).length_le
            have := item.length_lt
            have := afterGap_length_le s
            have := r.length_lt
            omega⟩
termination_by 2 * s.length + 1
decreasing_by
  · have := afterGap_length_le s
    omega
  · have := (nextElement_suffix hn).length_le
    have := item.length_lt
    have := afterGap_length_le s
    omega

/-- Reads fields, up to and with the closing. -/
def readFields (closing : Closing) (s : List Char) :
    Except Fault (Reading (List Field) (s.length + 1)) :=
  if closing.reached (afterGap s) then
    .ok ⟨[], closing.skip (afterGap s), by
      have := ((closing.skip_suffix _).trans (afterGap_suffix s)).length_le
      omega⟩
  else if (afterGap s).isEmpty then .error ⟨.unterminatedObject, []⟩
  else
    match readField (afterGap s) with
    | .error fault => .error fault
    | .ok field =>
      match hn : nextElement closing field.rest with
      | none => .error ⟨.expectedFieldEnd, afterGap field.rest⟩
      | some next =>
        match readFields closing next with
        | .error fault => .error fault
        | .ok r => .ok ⟨field.value :: r.value, r.rest, by
            have := (nextElement_suffix hn).length_le
            have := field.length_lt
            have := afterGap_length_le s
            have := r.length_lt
            omega⟩
termination_by 2 * s.length + 1
decreasing_by
  · have := afterGap_length_le s
    omega
  · have := (nextElement_suffix hn).length_le
    have := field.length_lt
    have := afterGap_length_le s
    omega

end

/-- What was read, without the bound. -/
def Reading.forget {α : Type} {bound : Nat} (r : Reading α bound) : α × List Char :=
  (r.value, r.rest)

/-- Reads a value at the front of a text. -/
def value (s : List Char) : Result Value := (readValue s).map Reading.forget

/-- Reads a field at the front of a text. -/
def field (s : List Char) : Result Field := (readField s).map Reading.forget

/-- Reads the items of a list after its bracket, up to and with the closing one. -/
def items (s : List Char) : Result (List Value) := (readItems s).map Reading.forget

/-- Reads fields, up to and with the closing. -/
def fields (closing : Closing) (s : List Char) : Result (List Field) :=
  (readFields closing s).map Reading.forget

/-! ## The equations of the grammar -/

/-- A value is an object, a list or a scalar. -/
theorem value_eq (s : List Char) : value s =
    match s with
    | '{' :: rest =>
      (fields .brace rest).map fun (fs, after) => (.object (Object.ofFields fs), after)
    | '[' :: rest => (items rest).map fun (vs, after) => (.list vs, after)
    | s =>
      match scalar s with
      | .error fault => .error fault
      | .ok none => .error ⟨.expectedValue, s⟩
      | .ok (some (v, rest)) => .ok (v, rest) := by
  rw [value, readValue.eq_def]
  split
  · rename_i rest
    rw [fields]
    cases readFields .brace rest <;> rfl
  · rename_i rest
    rw [items]
    cases readItems rest <;> rfl
  · split <;> simp_all [Except.map, Reading.forget]

/-- A field is a key path, what leads to its value, and the value. -/
theorem field_eq (s : List Char) : field s =
    match keyPath s with
    | .error fault => .error fault
    | .ok none => .error ⟨.expectedKey, s⟩
    | .ok (some (path, after)) =>
      match fieldValue? after with
      | none => .error ⟨.expectedSeparator, afterBlanks after⟩
      | some start => (value start).map fun (v, rest) => (⟨path, v⟩, rest) := by
  rw [field, readField.eq_def]
  split
  · simp_all [Except.map]
  · simp_all [Except.map]
  · rename_i hp
    split
    · rename_i hv
      simp only [hp, hv, Except.map]
    · rename_i start hv
      simp only [hp, hv, value]
      cases readValue start <;> rfl

/-- The items of a list end at its bracket, or go on with one more item. -/
theorem items_eq (s : List Char) : items s =
    if Closing.bracket.reached (afterGap s) then .ok ([], Closing.bracket.skip (afterGap s))
    else if (afterGap s).isEmpty then .error ⟨.unterminatedList, []⟩
    else
      match value (afterGap s) with
      | .error fault => .error fault
      | .ok (item, rest) =>
        match nextElement .bracket rest with
        | none => .error ⟨.expectedItemEnd, afterGap rest⟩
        | some next => (items next).map fun (vs, after) => (item :: vs, after) := by
  rw [items, readItems.eq_def]
  split
  · rfl
  · split
    · rfl
    · rw [value]
      cases readValue (afterGap s) with
      | error fault => rfl
      | ok item =>
        dsimp only
        split
        · rename_i hn
          simp only [Except.map, Reading.forget, hn]
        · rename_i next hn
          simp only [items]
          cases hr : readItems next <;> simp only [Except.map, Reading.forget, hn, hr]

/-- Fields end at their closing, or go on with one more field. -/
theorem fields_eq (closing : Closing) (s : List Char) : fields closing s =
    if closing.reached (afterGap s) then .ok ([], closing.skip (afterGap s))
    else if (afterGap s).isEmpty then .error ⟨.unterminatedObject, []⟩
    else
      match field (afterGap s) with
      | .error fault => .error fault
      | .ok (f, rest) =>
        match nextElement closing rest with
        | none => .error ⟨.expectedFieldEnd, afterGap rest⟩
        | some next => (fields closing next).map fun (fs, after) => (f :: fs, after) := by
  rw [fields, readFields.eq_def]
  split
  · rfl
  · split
    · rfl
    · rw [field]
      cases readField (afterGap s) with
      | error fault => rfl
      | ok f =>
        dsimp only
        split
        · rename_i hn
          simp only [Except.map, Reading.forget, hn]
        · rename_i next hn
          simp only [fields]
          cases hr : readFields closing next <;> simp only [Except.map, Reading.forget, hn, hr]

end Grammar

end LeaderKey
