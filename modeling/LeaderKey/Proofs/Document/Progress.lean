import LeaderKey.Proofs.Grammar.Keyed
import LeaderKey.Proofs.Grammar.Tail.Phrase
import Mathlib.Logic.Function.Iterate
import Mathlib.Logic.Relation

/-!
# Readers make progress

What a reader leaves is a suffix of what it was given, and shorter if it stands for something
(`Leaves.suffix`), and a gap takes a comment as a whole (`Leaves.gap_eq`). The readers with a loop or
a recursion are `Routine`s; `GoesOn` lists the texts that a routine goes on to, and all of them are
shorter, except that the body of a list or an object first goes to its element behind a gap
(`GoesOn.suffix`). So the nesting is bounded by the length of the text: `Routine.iterate_step` unfolds
the equations of all routines that often, from anything at the bottom, and has what the routines give.
`Document.parse_progress` is the law as a whole.
-/

namespace LeaderKey

namespace Grammar

open LeaderKey.Text

/-! ## What a reader leaves -/

/-- What the readers read. -/
inductive Construct where
  /-- Blanks within a line. -/
  | blanks
  /-- A comment, up to the end of its line. -/
  | comment
  /-- Blanks, comments and the ends of lines. -/
  | gap
  /-- A text in quotes. -/
  | quotedText
  /-- A text in triple quotes. -/
  | tripleText
  /-- A bare word. -/
  | bareWord
  /-- A token: one of the last three. -/
  | token
  /-- Tokens on one line. -/
  | scalar
  /-- A list with its brackets. -/
  | list
  /-- An object with its braces. -/
  | object
  /-- A value. -/
  | value
  /-- A key. -/
  | key
  /-- Keys with dots between them. -/
  | keyPath
  /-- What leads from a key path to the value. -/
  | separator
  /-- A field. -/
  | field
  /-- Fields, up to and with a closing. -/
  | body (closing : Closing)
  /-- What stands between two elements. -/
  | elementEnd (closing : Closing)
  deriving DecidableEq

/-- Whether the construct stands for something, so that it cannot be empty. Fields up to the end of the
text may all be missing, and nothing closes them then. -/
def Construct.isSolid : Construct → Bool
  | .blanks | .gap | .separator | .body .endOfText | .elementEnd _ => false
  | _ => true

/-- The reader of a construct succeeds in front of a text and leaves another one. -/
inductive Leaves : Construct → List Char → List Char → Prop
  | blanks (s : List Char) : Leaves .blanks s (afterBlanks s)
  | comment {s : List Char} (h : startsComment s = true) :
      Leaves .comment s (s.dropWhile (· != '\n'))
  | gap (s : List Char) : Leaves .gap s (afterGap s)
  | quotedText {s text rest : List Char} (h : quotedBody s = .ok (text, rest)) :
      Leaves .quotedText ('"' :: s) rest
  | tripleText {s text rest : List Char} (h : tripleBody s = some (text, rest)) :
      Leaves .tripleText ('"' :: '"' :: '"' :: s) rest
  | bareWord {s : List Char} (h : (bareWord s).1 ≠ []) : Leaves .bareWord s (bareWord s).2
  | token {s rest : List Char} {t : Token} (h : token s = .ok (some (t, rest))) :
      Leaves .token s rest
  | scalar {s rest : List Char} {v : Value} (h : scalar s = .ok (some (v, rest))) :
      Leaves .scalar s rest
  | list {s rest : List Char} {vs : List Value} (h : items s = .ok (vs, rest)) :
      Leaves .list ('[' :: s) rest
  | object {s rest : List Char} {fs : List Field} (h : fields .brace s = .ok (fs, rest)) :
      Leaves .object ('{' :: s) rest
  | value {s rest : List Char} {v : Value} (h : value s = .ok (v, rest)) : Leaves .value s rest
  | key {s rest name : List Char} (h : key s = .ok (some (name, rest))) : Leaves .key s rest
  | keyPath {s rest : List Char} {path : List String} (h : keyPath s = .ok (some (path, rest))) :
      Leaves .keyPath s rest
  | separator {s rest : List Char} (h : fieldValue? s = some rest) : Leaves .separator s rest
  | field {s rest : List Char} {f : Field} (h : field s = .ok (f, rest)) : Leaves .field s rest
  | body {closing : Closing} {s rest : List Char} {fs : List Field}
      (h : fields closing s = .ok (fs, rest)) : Leaves (.body closing) s rest
  | elementEnd {closing : Closing} {s rest : List Char} (h : nextElement closing s = some rest) :
      Leaves (.elementEnd closing) s rest

/-- Inside of a comment, a gap goes on at the end of the line. -/
theorem gap_inComment (s : List Char) : gap true s = gap false (s.dropWhile (· != '\n')) := by
  induction s with
  | nil => rfl
  | cons c rest ih =>
    by_cases hline : c = '\n'
    · rw [List.dropWhile_cons_of_neg (by simpa using hline), gap, gap, if_pos hline, if_pos hline]
    · rw [List.dropWhile_cons_of_pos (by simpa using hline), gap, if_neg hline, Bool.true_or,
        if_pos rfl, ih]

/-- A comment begins with no blank and no line feed. -/
theorem exists_cons_of_startsComment {s : List Char} (h : startsComment s = true) :
    ∃ c t, s = c :: t ∧ isInlineBlank c = false ∧ c ≠ '\n' := by
  cases s with
  | nil => cases h
  | cons c t =>
    rw [startsComment_cons, Bool.or_eq_true, Bool.and_eq_true, beq_iff_eq, beq_iff_eq] at h
    refine ⟨c, t, rfl, ?_⟩
    rcases h with rfl | ⟨rfl, -⟩
    · decide
    · decide

/-- A gap takes a comment as a whole. -/
theorem Leaves.gap_eq {s rest : List Char} (h : Leaves .comment s rest) :
    Grammar.gap false s = Grammar.gap false rest := by
  cases h with
  | comment h =>
    obtain ⟨c, t, rfl, hblank, hline⟩ := exists_cons_of_startsComment h
    rw [List.dropWhile_cons_of_pos (by simpa using hline), ← gap_inComment, Grammar.gap,
      if_neg hline, hblank, if_neg (by decide), if_pos h]

/-- What a reader leaves is a suffix of the text, and shorter if the construct stands for something.
-/
theorem Leaves.suffix {p : Construct} {s rest : List Char} (h : Leaves p s rest) :
    rest <:+ s ∧ (p.isSolid = true → rest.length < s.length) := by
  cases h with
  | blanks s => exact ⟨afterBlanks_suffix s, nofun⟩
  | comment h =>
    refine ⟨List.dropWhile_suffix _, fun _ => ?_⟩
    obtain ⟨c, t, rfl, -, hline⟩ := exists_cons_of_startsComment h
    rw [List.dropWhile_cons_of_pos (by simpa using hline)]
    exact Nat.lt_succ_of_le (List.dropWhile_suffix _).length_le
  | gap s => exact ⟨afterGap_suffix s, nofun⟩
  | quotedText h =>
    obtain ⟨hsuffix, hlt⟩ := quotedBody_suffix h
    exact ⟨hsuffix.trans (List.suffix_cons _ _), fun _ => Nat.lt_succ_of_lt hlt⟩
  | tripleText h =>
    obtain ⟨hsuffix, hlt⟩ := tripleBody_suffix h
    refine ⟨hsuffix.trans ⟨['"', '"', '"'], rfl⟩, fun _ => ?_⟩
    simp only [List.length_cons]
    omega
  | bareWord h =>
    have happend := bareWord_append s
    refine ⟨⟨_, happend⟩, fun _ => ?_⟩
    have hlength := congrArg List.length happend
    have hpos := List.length_pos_iff.2 h
    rw [List.length_append] at hlength
    omega
  | token h => exact ⟨(token_suffix h).1, fun _ => (token_suffix h).2⟩
  | scalar h => exact ⟨(scalar_suffix h).1, fun _ => (scalar_suffix h).2⟩
  | list h =>
    obtain ⟨hsuffix, hlt⟩ := (reads_of_items h).suffix
    exact ⟨hsuffix.trans (List.suffix_cons _ _), fun _ => Nat.lt_succ_of_lt (hlt trivial)⟩
  | object h =>
    obtain ⟨hsuffix, hlt⟩ := (reads_of_fields h).suffix
    exact ⟨hsuffix.trans (List.suffix_cons _ _), fun _ => Nat.lt_succ_of_lt (hlt nofun)⟩
  | value h => exact ⟨(reads_of_value h).suffix.1, fun _ => length_lt_of_value h⟩
  | key h => exact ⟨(key_suffix h).1, fun _ => (key_suffix h).2⟩
  | keyPath h => exact ⟨(keyPath_suffix h).1, fun _ => (keyPath_suffix h).2⟩
  | separator h => exact ⟨fieldValue?_suffix h, nofun⟩
  | field h => exact ⟨(reads_of_field h).suffix.1, fun _ => length_lt_of_field h⟩
  | @body closing _ _ _ h =>
    obtain ⟨hsuffix, hlt⟩ := (reads_of_fields h).suffix
    refine ⟨hsuffix, fun hsolid => hlt ?_⟩
    rintro rfl
    cases hsolid
  | elementEnd h => exact ⟨nextElement_suffix h, nofun⟩

/-! ## What a reader goes on to -/

/-- The readers that are loops or call each other. -/
inductive Routine where
  /-- The loop over a gap. -/
  | gap (inComment : Bool)
  /-- The loop over a text in quotes. -/
  | quoted
  /-- The loop over the tokens behind a first one. -/
  | tokens
  /-- The loop over the keys behind a first one. -/
  | keys
  /-- The reader of a value. -/
  | value
  /-- The reader of a field. -/
  | field
  /-- The loop over the items of a list. -/
  | items
  /-- The loop over the fields of an object, up to a closing. -/
  | fields (closing : Closing)
  deriving DecidableEq

namespace Routine

/-- What a routine gives. -/
abbrev Answer : Routine → Type
  | .gap _ => Bool × List Char
  | .quoted => Result (List Char)
  | .tokens => Result (List (List Char × Token))
  | .keys => Result (List String)
  | .value => Result Value
  | .field => Result Field
  | .items => Result (List Value)
  | .fields _ => Result (List Field)

/-- Answers of all routines to all texts. -/
abbrev Answers := (r : Routine) → List Char → r.Answer

/-- The answers that the readers give. -/
def answer : Answers
  | .gap inComment => Grammar.gap inComment
  | .quoted => quotedBody
  | .tokens => moreTokens
  | .keys => moreKeys
  | .value => Grammar.value
  | .field => Grammar.field
  | .items => Grammar.items
  | .fields closing => Grammar.fields closing

/-- One step of each routine: what it gives if the routines it goes on with answer like `o`. -/
def step (o : Answers) : Answers
  | .gap inComment => fun s =>
    match s with
    | [] => (false, [])
    | c :: rest =>
      if c = '\n' then (true, (o (.gap false) rest).2)
      else if inComment || isInlineBlank c then o (.gap inComment) rest
      else if startsComment (c :: rest) then o (.gap true) rest
      else (false, c :: rest)
  | .quoted => fun s =>
    match s with
    | [] => .error ⟨.unterminatedQuote, []⟩
    | c :: rest =>
      if c = '"' then .ok ([], rest)
      else if c = '\n' then .error ⟨.unterminatedQuote, c :: rest⟩
      else if c = '\\' then
        match escape rest with
        | .ok (scalar, after) => Result.cons scalar (o .quoted after)
        | .error problem => .error ⟨problem, c :: rest⟩
      else Result.cons c (o .quoted rest)
  | .tokens => fun s =>
    match token (afterBlanks s) with
    | .error fault => .error fault
    | .ok none => .ok ([], s)
    | .ok (some (t, rest)) =>
      (o .tokens rest).map fun (ts, after) => ((s.takeWhile isInlineBlank, t) :: ts, after)
  | .keys => fun s =>
    match s with
    | '.' :: s =>
      match key s with
      | .error fault => .error fault
      | .ok none => .ok ([], '.' :: s)
      | .ok (some (name, rest)) =>
        (o .keys rest).map fun (names, after) => (String.ofList name :: names, after)
    | s => .ok ([], s)
  | .value => fun s =>
    match s with
    | '{' :: rest =>
      (o (.fields .brace) rest).map fun (fs, after) => (.object (Object.ofFields fs), after)
    | '[' :: rest => (o .items rest).map fun (vs, after) => (.list vs, after)
    | s =>
      match scalar s with
      | .error fault => .error fault
      | .ok none => .error ⟨.expectedValue, s⟩
      | .ok (some (v, rest)) => .ok (v, rest)
  | .field => fun s =>
    match keyPath s with
    | .error fault => .error fault
    | .ok none => .error ⟨.expectedKey, s⟩
    | .ok (some (path, after)) =>
      match fieldValue? after with
      | none => .error ⟨.expectedSeparator, afterBlanks after⟩
      | some start => (o .value start).map fun (v, rest) => (⟨path, v⟩, rest)
  | .items => elements .bracket .unterminatedList .expectedItemEnd (o .value) (o .items)
  | .fields closing =>
    elements closing .unterminatedObject .expectedFieldEnd (o .field) (o (.fields closing))

/-- The body of a list or an object goes to its element at the text where it is itself. -/
inductive Enters : Routine → Routine → Prop
  | item : Enters .items .value
  | field (closing : Closing) : Enters (.fields closing) .field

end Routine

/-- A routine in front of a text goes on with a routine in front of another text: a loop with its
next iteration, and a reader with the reader that it calls. -/
inductive GoesOn : Routine × List Char → Routine × List Char → Prop
  | line (inComment : Bool) (s : List Char) :
      GoesOn (.gap inComment, '\n' :: s) (.gap false, s)
  | skipped {inComment : Bool} {c : Char} {s : List Char} (hline : c ≠ '\n')
      (h : (inComment || isInlineBlank c) = true) :
      GoesOn (.gap inComment, c :: s) (.gap inComment, s)
  | comment {c : Char} {s : List Char} (h : startsComment (c :: s) = true) :
      GoesOn (.gap false, c :: s) (.gap true, s)
  | char {c : Char} {s : List Char} (hquote : c ≠ '"') (hline : c ≠ '\n')
      (hescape : c ≠ '\\') : GoesOn (.quoted, c :: s) (.quoted, s)
  | escape {s after : List Char} {c : Char} (h : escape s = .ok (c, after)) :
      GoesOn (.quoted, '\\' :: s) (.quoted, after)
  | token {s rest : List Char} {t : Token} (h : token (afterBlanks s) = .ok (some (t, rest))) :
      GoesOn (.tokens, s) (.tokens, rest)
  | key {s rest name : List Char} (h : key s = .ok (some (name, rest))) :
      GoesOn (.keys, '.' :: s) (.keys, rest)
  | object (s : List Char) : GoesOn (.value, '{' :: s) (.fields .brace, s)
  | list (s : List Char) : GoesOn (.value, '[' :: s) (.items, s)
  | fieldValue {s after start : List Char} {path : List String}
      (hpath : keyPath s = .ok (some (path, after))) (hstart : fieldValue? after = some start) :
      GoesOn (.field, s) (.value, start)
  | item {s : List Char} (hreached : ¬ Closing.bracket.reached (afterGap s) = true)
      (hempty : ¬ (afterGap s).isEmpty = true) : GoesOn (.items, s) (.value, afterGap s)
  | nextItem {s rest next : List Char} {v : Value} (hvalue : value (afterGap s) = .ok (v, rest))
      (hnext : nextElement .bracket rest = some next) : GoesOn (.items, s) (.items, next)
  | field {closing : Closing} {s : List Char} (hreached : ¬ closing.reached (afterGap s) = true)
      (hempty : ¬ (afterGap s).isEmpty = true) :
      GoesOn (.fields closing, s) (.field, afterGap s)
  | nextField {closing : Closing} {s rest next : List Char} {f : Field}
      (hfield : field (afterGap s) = .ok (f, rest)) (hnext : nextElement closing rest = some next) :
      GoesOn (.fields closing, s) (.fields closing, next)

/-- Behind an element that has been read, the next one starts further on. -/
theorem suffix_of_nextElement {closing : Closing} {s rest next : List Char}
    (hsuffix : rest <:+ afterGap s) (hlt : rest.length < (afterGap s).length)
    (hnext : nextElement closing rest = some next) : next <:+ s ∧ next.length < s.length := by
  have hbehind := nextElement_suffix hnext
  have hgap := afterGap_suffix s
  have hle := hbehind.length_le
  have hgap_le := hgap.length_le
  exact ⟨(hbehind.trans hsuffix).trans hgap, by omega⟩

/-- What a routine goes on to is a suffix of the text, and shorter unless a body enters its element.
-/
theorem GoesOn.suffix {r r' : Routine} {s t : List Char} (h : GoesOn (r, s) (r', t)) :
    t <:+ s ∧ (r.Enters r' ∨ t.length < s.length) := by
  cases h with
  | line _ _ => exact ⟨List.suffix_cons _ _, Or.inr (Nat.lt_succ_self _)⟩
  | skipped _ _ => exact ⟨List.suffix_cons _ _, Or.inr (Nat.lt_succ_self _)⟩
  | comment _ => exact ⟨List.suffix_cons _ _, Or.inr (Nat.lt_succ_self _)⟩
  | char _ _ _ => exact ⟨List.suffix_cons _ _, Or.inr (Nat.lt_succ_self _)⟩
  | escape h =>
    obtain ⟨hsuffix, hlt⟩ := escape_suffix h
    exact ⟨hsuffix.trans (List.suffix_cons _ _), Or.inr (Nat.lt_succ_of_lt hlt)⟩
  | token h =>
    have hblanks := afterBlanks_suffix s
    obtain ⟨hsuffix, hlt⟩ := token_suffix h
    exact ⟨hsuffix.trans hblanks, Or.inr (Nat.lt_of_lt_of_le hlt hblanks.length_le)⟩
  | key h =>
    obtain ⟨hsuffix, hlt⟩ := key_suffix h
    exact ⟨hsuffix.trans (List.suffix_cons _ _), Or.inr (Nat.lt_succ_of_lt hlt)⟩
  | object _ => exact ⟨List.suffix_cons _ _, Or.inr (Nat.lt_succ_self _)⟩
  | list _ => exact ⟨List.suffix_cons _ _, Or.inr (Nat.lt_succ_self _)⟩
  | fieldValue hpath hstart =>
    obtain ⟨hsuffix, hlt⟩ := keyPath_suffix hpath
    have hvalue := fieldValue?_suffix hstart
    exact ⟨hvalue.trans hsuffix, Or.inr (Nat.lt_of_le_of_lt hvalue.length_le hlt)⟩
  | item _ _ => exact ⟨afterGap_suffix s, Or.inl .item⟩
  | nextItem hvalue hnext =>
    obtain ⟨hsuffix, hlt⟩ :=
      suffix_of_nextElement (reads_of_value hvalue).suffix.1 (length_lt_of_value hvalue) hnext
    exact ⟨hsuffix, Or.inr hlt⟩
  | @field closing _ _ _ => exact ⟨afterGap_suffix s, Or.inl (.field closing)⟩
  | nextField hfield hnext =>
    obtain ⟨hsuffix, hlt⟩ :=
      suffix_of_nextElement (reads_of_field hfield).suffix.1 (length_lt_of_field hfield) hnext
    exact ⟨hsuffix, Or.inr hlt⟩

/-- Along the way from a value, every text is shorter than that of the value: what is read inside of a
list or an object starts behind its bracket or brace. -/
theorem length_lt_of_transGen {s t : List Char} {r : Routine}
    (h : Relation.TransGen GoesOn (.value, s) (r, t)) : t.length < s.length := by
  generalize hx : (r, t) = x at h
  induction h generalizing r t with
  -- The first step leaves the bracket or the brace behind, and no later one goes back.
  | single h =>
    subst hx
    rcases h.suffix.2 with henters | hlt
    · cases henters
    · exact hlt
  | @tail y x hy h ih =>
    subst hx
    obtain ⟨r', u⟩ := y
    exact Nat.lt_of_le_of_lt h.suffix.1.length_le (ih rfl)

/-! ## Reading comes to an end -/

namespace Routine

/-- The readers' answers are what a step makes of them: the equations of the grammar. -/
theorem step_answer (r : Routine) (s : List Char) : step answer r s = answer r s := by
  cases r with
  | gap inComment => cases s <;> rfl
  | quoted =>
    cases s with
    | nil => simp only [step, answer, quotedBody]
    | cons c rest =>
      show _ = quotedBody (c :: rest)
      simp only [step]
      by_cases hescape : c = '\\'
      · subst hescape
        rw [quotedBody_backslash]
        rfl
      · rw [quotedBody, if_neg hescape, if_neg hescape]
        rfl
  | tokens => exact (moreTokens_eq s).symm
  | keys =>
    show _ = moreKeys s
    simp only [step]
    split
    · rw [moreKeys_dot]
      rfl
    · rename_i hdot
      rw [moreKeys_of_not_dot]
      rintro hhead
      obtain ⟨t, rfl⟩ := List.head?_eq_some_iff.1 hhead
      exact hdot t rfl
  | value => exact (value_eq s).symm
  | field => exact (field_eq s).symm
  | items => exact (items_eq_elements s).symm
  | fields closing => exact (fields_eq_elements closing s).symm

/-- A round of the loop over elements only needs the first element, and the others behind it. -/
theorem elements_congr {α : Type} {closing : Closing} {unclosed wrongEnd : Problem}
    {first first' : List Char → Result α} {more more' : List Char → Result (List α)}
    {s : List Char}
    (hfirst : ¬ closing.reached (afterGap s) = true → ¬ (afterGap s).isEmpty = true →
      first (afterGap s) = first' (afterGap s))
    (hmore : ∀ x rest next, first' (afterGap s) = .ok (x, rest) →
      nextElement closing rest = some next → more next = more' next) :
    elements closing unclosed wrongEnd first more s =
      elements closing unclosed wrongEnd first' more' s := by
  unfold elements
  split_ifs with hreached hempty
  · rfl
  · rfl
  · rw [hfirst hreached hempty]
    rcases hread : first' (afterGap s) with fault | ⟨x, rest⟩
    · rfl
    · cases hnext : nextElement closing rest with
      | none => simp only [hnext]
      | some next => simp only [hnext, hmore x rest next hread hnext]

/-- A step from answers that are right where the routine goes on gives the right answer: `GoesOn`
misses no call. -/
theorem step_eq_answer {o : Answers} {r : Routine} {s : List Char}
    (h : ∀ r' t, GoesOn (r, s) (r', t) → o r' t = answer r' t) : step o r s = answer r s := by
  rw [← step_answer]
  -- Both are one step now, from `o` and from the right answers. They can differ only in what the step
  -- asks for, and each question is one of the cases of `GoesOn`.
  cases r with
  | gap inComment =>
    cases s with
    | nil => rfl
    | cons c rest =>
      simp only [step]
      split_ifs with hline hskipped hcomment
      · subst hline
        rw [h _ _ (.line inComment rest)]
      · rw [h _ _ (.skipped hline hskipped)]
      · rw [Bool.or_eq_true, not_or, Bool.not_eq_true] at hskipped
        obtain ⟨rfl, -⟩ := hskipped
        rw [h _ _ (.comment hcomment)]
      · rfl
  | quoted =>
    cases s with
    | nil => rfl
    | cons c rest =>
      simp only [step]
      split_ifs with hquote hline hescape
      · rfl
      · rfl
      · subst hescape
        cases he : escape rest with
        | error problem => rfl
        | ok p =>
          dsimp only
          rw [h _ _ (.escape he)]
      · rw [h _ _ (.char hquote hline hescape)]
  | tokens =>
    simp only [step]
    rcases ht : token (afterBlanks s) with fault | _ | ⟨t, rest⟩
    · rfl
    · rfl
    · dsimp only
      rw [h _ _ (.token ht)]
  | keys =>
    simp only [step]
    split
    · rename_i t
      rcases hk : key t with fault | _ | ⟨name, rest⟩
      · rfl
      · rfl
      · dsimp only
        rw [h _ _ (.key hk)]
    · rfl
  | value =>
    simp only [step]
    split
    · rw [h _ _ (.object _)]
    · rw [h _ _ (.list _)]
    · rfl
  | field =>
    simp only [step]
    rcases hpath : keyPath s with fault | _ | ⟨path, after⟩
    · rfl
    · rfl
    · cases hstart : fieldValue? after with
      | none => simp only [hstart]
      | some start => simp only [hstart, h _ _ (.fieldValue hpath hstart)]
  | items =>
    refine elements_congr (fun hreached hempty => h _ _ (.item hreached hempty)) ?_
    exact fun v rest next hvalue hnext => h _ _ (.nextItem hvalue hnext)
  | fields closing =>
    refine elements_congr (fun hreached hempty => h _ _ (.field hreached hempty)) ?_
    exact fun f rest next hfield hnext => h _ _ (.nextField hfield hnext)

/-- Bodies come before their elements at the same text. -/
def rank : Routine → Nat
  | .items | .fields _ => 1
  | _ => 0

/-- The length of the text goes down with each step, or stays and the rank goes down. -/
theorem measure_lt {r r' : Routine} {s t : List Char} (h : GoesOn (r, s) (r', t)) :
    2 * t.length + r'.rank < 2 * s.length + r.rank := by
  have hle := h.suffix.1.length_le
  have hrank : r'.rank ≤ 1 := by cases r' <;> simp [rank]
  rcases h.suffix.2 with henters | hlt
  · have hdown : r'.rank < r.rank := by cases henters <;> exact Nat.zero_lt_one
    omega
  · omega

/-- Unfolding the routines deeper than twice the length of a text gives their answers, whatever is at
the bottom. -/
theorem iterate_step (o : Answers) {r : Routine} {s : List Char} {n : Nat}
    (h : 2 * s.length + 1 < n) : step^[n] o r s = answer r s := by
  -- By induction on the depth, which the length and the rank together stay below.
  have hrank (n : Nat) : ∀ (r : Routine) (s : List Char), 2 * s.length + r.rank < n →
      step^[n] o r s = answer r s := by
    induction n with
    | zero => nofun
    | succ n ih =>
      intro r s hn
      rw [Function.iterate_succ_apply']
      exact step_eq_answer fun r' t hgoes =>
        ih r' t (Nat.lt_of_lt_of_le (measure_lt hgoes) (Nat.le_of_lt_succ hn))
  have hle : r.rank ≤ 1 := by cases r <;> simp [rank]
  exact hrank n r s (by omega)

end Routine

/-! ## Whole texts -/

/-- The whole of a text is read as fields: with braces around them and nothing but gaps outside, or
up to the end of the text. -/
def ReadsWhole (s : List Char) (fs : List Field) : Prop :=
  (∃ rest after, afterGap s = '{' :: rest ∧ fields .brace rest = .ok (fs, after) ∧
    afterGap after = []) ∨
  (afterGap s).head? ≠ some '{' ∧ fields .endOfText s = .ok (fs, [])

/-- A document is read from a text exactly if the whole of it is. -/
theorem document_eq_ok_iff {s : List Char} {fs : List Field} :
    document s = .ok fs ↔ ReadsWhole s fs := by
  by_cases hbrace : (afterGap s).head? = some '{'
  · obtain ⟨rest, hrest⟩ := List.head?_eq_some_iff.1 hbrace
    constructor
    · intro h
      obtain ⟨after, hfields, hafter⟩ := document_of_brace_eq_ok hrest h
      exact Or.inl ⟨rest, after, hrest, hfields.isRead, hafter⟩
    · rintro (⟨rest', after, hrest', hfields, hafter⟩ | ⟨hnot, -⟩)
      · exact document_of_brace hrest' (reads_of_fields hfields) hafter
      · exact absurd hbrace hnot
  · rw [document_of_not_brace_iff hbrace]
    constructor
    · intro h
      exact Or.inr ⟨hbrace, h.isRead⟩
    · rintro (⟨rest, after, hrest, -, -⟩ | ⟨-, hfields⟩)
      · exact absurd (by rw [hrest]; rfl) hbrace
      · exact reads_of_fields hfields

end Grammar

open Grammar

namespace Document

/-- The parser always makes progress. What a reader leaves is a suffix, and shorter if the construct
stands for something; a gap takes a comment as a whole. What a loop or a reader goes on to is a suffix,
and shorter unless the body of a list or an object enters its element; everything inside of a value is
shorter than the value; and the readers need nothing else. So the nesting is no deeper than twice the
length of the text and two, and a text is a document only if the whole of it is read. -/
theorem parse_progress :
    (∀ p s rest, Leaves p s rest →
      rest <:+ s ∧ (p.isSolid = true → rest.length < s.length)) ∧
    (∀ s rest, Leaves .comment s rest → gap false s = gap false rest) ∧
    (∀ r s r' t, GoesOn (r, s) (r', t) → t <:+ s ∧ (r.Enters r' ∨ t.length < s.length)) ∧
    (∀ s r t, Relation.TransGen GoesOn (.value, s) (r, t) → t.length < s.length) ∧
    (∀ (o : Routine.Answers) r s,
      (∀ r' t, GoesOn (r, s) (r', t) → o r' t = Routine.answer r' t) →
        Routine.step o r s = Routine.answer r s) ∧
    (∀ (o : Routine.Answers) r s n, 2 * s.length + 1 < n →
      Routine.step^[n] o r s = Routine.answer r s) ∧
    ∀ text d, parse text = .ok d → ∃ fs, d = ⟨Object.ofFields fs⟩ ∧ ReadsWhole text.toList fs := by
  refine ⟨fun p s rest => Leaves.suffix, fun s rest => Leaves.gap_eq,
    fun r s r' t => GoesOn.suffix, fun s r t => length_lt_of_transGen,
    fun o r s => Routine.step_eq_answer, fun o r s n => Routine.iterate_step o, fun text d h => ?_⟩
  obtain ⟨fs, hread, hd⟩ := parse_eq_ok_iff.1 h
  exact ⟨fs, hd, document_eq_ok_iff.1 hread⟩

/-- An empty quoted text, a key path that ends before a dot, a comment at the head of a text, a list in
a list, and a text with these lists in its only field. -/
theorem parse_progress_nested :
    (Leaves .token "\"\"]".toList "]".toList ∧ "]".toList.length < "\"\"]".toList.length) ∧
    (Leaves .keyPath "a.: 1".toList ".: 1".toList ∧ ".: 1".toList <:+ "a.: 1".toList) ∧
    (Leaves .comment "# b\na".toList "\na".toList ∧
      gap false "# b\na".toList = gap false "\na".toList) ∧
    (GoesOn (.items, " []]".toList) (.value, "[]]".toList) ∧ "[]]".toList <:+ " []]".toList) ∧
    (Relation.TransGen GoesOn (.value, "[ []]".toList) (.value, "[]]".toList) ∧
      "[]]".toList.length < "[ []]".toList.length) ∧
    (∀ o, Routine.step^[12] o .value "[ []]".toList = .ok (.list [.list []], [])) ∧
    parse "a: [ []]" = .ok ⟨[("a", .list [.list []])]⟩ ∧
    ∃ fs, (⟨[("a", .list [.list []])]⟩ : Document) = ⟨Object.ofFields fs⟩ ∧
      ReadsWhole "a: [ []]".toList fs := by
  obtain ⟨hleaves, hcomments, hgoes, hinside, -, hdeep, hwhole⟩ := parse_progress
  have hempty : token "\"\"]".toList = .ok (some (.quoted [], "]".toList)) := by decide +kernel
  have hdot : keyPath "a.: 1".toList = .ok (some (["a"], ".: 1".toList)) := by decide +kernel
  have htoken := Leaves.token hempty
  have hpath := Leaves.keyPath hdot
  have hcomment : Leaves .comment "# b\na".toList ("# b\na".toList.dropWhile (· != '\n')) :=
    .comment (by decide +kernel)
  have hitem : GoesOn (.items, " []]".toList) (.value, afterGap " []]".toList) :=
    .item (by decide +kernel) (by decide +kernel)
  have hlist : GoesOn (.value, "[ []]".toList) (.items, " []]".toList) := .list _
  have hchain := (Relation.TransGen.single hlist).tail hitem
  have hparse : parse "a: [ []]" = .ok ⟨[("a", .list [.list []])]⟩ := by decide +kernel
  have hvalue : value "[ []]".toList = .ok (.list [.list []], []) := by decide +kernel
  exact ⟨⟨htoken, (hleaves _ _ _ htoken).2 rfl⟩, ⟨hpath, (hleaves _ _ _ hpath).1⟩,
    ⟨hcomment, hcomments _ _ hcomment⟩, ⟨hitem, (hgoes _ _ _ _ hitem).1⟩,
    ⟨hchain, hinside _ _ _ hchain⟩, fun o => (hdeep o .value _ 12 (by decide)).trans hvalue,
    hparse, hwhole _ _ hparse⟩

end Document

end LeaderKey
