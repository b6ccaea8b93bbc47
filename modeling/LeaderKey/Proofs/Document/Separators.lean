import LeaderKey.Proofs.Grammar.FieldText

/-!
# Separators

A user may end a field with a comma or with its line, and put blanks and comments around either.
`Document.parse_separated` says that all of these mean the same: each field is inserted in turn,
whatever separates it from the next one. A comma separates two fields and stands for none: where
another comma or no field stands before it, the text is refused there.
-/

namespace LeaderKey

namespace Grammar

open LeaderKey.Text

/-! ## Gaps -/

/-- The marks that begin a comment. -/
def commentMarks : List (List Char) := [['#'], ['/', '/']]

/-- A gap: blanks, new lines, and comments with the new lines at their ends. -/
inductive IsGap : List Char → Prop
  /-- Nothing. -/
  | nil : IsGap []
  /-- A blank or a new line, and a gap. -/
  | blank {c : Char} {g : List Char} (hc : isBlank c = true) (hg : IsGap g) : IsGap (c :: g)
  /-- A comment, its new line, and a gap. -/
  | comment {mark text g : List Char} (hmark : mark ∈ commentMarks) (htext : '\n' ∉ text)
    (hg : IsGap g) : IsGap (mark ++ (text ++ '\n' :: g))

/-- A mark begins a comment. -/
theorem gap_commentMark {mark : List Char} (h : mark ∈ commentMarks) (s : List Char) :
    gap false (mark ++ s) = gap true s := by
  simp only [commentMarks, List.mem_cons, List.not_mem_nil, or_false] at h
  rcases h with rfl | rfl
  · rfl
  · rfl

/-- A comment ends with its line. -/
theorem gap_comment {text : List Char} (h : '\n' ∉ text) (s : List Char) :
    gap true (text ++ '\n' :: s) = (true, (gap false s).2) := by
  induction text with
  | nil => rw [List.nil_append, gap, if_pos rfl]
  | cons c text ih =>
    rw [List.mem_cons, not_or] at h
    rw [List.cons_append, gap, if_neg (Ne.symm h.1), Bool.true_or, if_pos rfl]
    exact ih h.2

/-- A gap is passed over, and crosses a line if there is a new line in it. -/
theorem IsGap.gap_append {g : List Char} (h : IsGap g) (s : List Char) :
    gap false (g ++ s) = (decide ('\n' ∈ g) || (gap false s).1, (gap false s).2) := by
  induction h with
  | nil => rfl
  | @blank c g hc _ ih =>
    rw [List.cons_append, gap]
    by_cases hline : c = '\n'
    · rw [if_pos hline, ih]
      simp [hline]
    · have hinline : isInlineBlank c = true := by simp [isInlineBlank, hline, hc]
      rw [if_neg hline, Bool.false_or, if_pos hinline, ih]
      simp [Ne.symm hline]
  | @comment mark text g hmark htext _ ih =>
    rw [List.append_assoc, gap_commentMark hmark, List.append_assoc, List.cons_append,
      gap_comment htext, ih]
    simp

/-- The text after a gap. -/
theorem IsGap.afterGap_append {g : List Char} (h : IsGap g) (s : List Char) :
    afterGap (g ++ s) = afterGap s := by
  unfold afterGap
  rw [h.gap_append]

/-- A gap with a new line in it crosses a line. -/
theorem IsGap.crossesLine_append {g : List Char} (h : IsGap g) (hline : '\n' ∈ g) (s : List Char) :
    crossesLine (g ++ s) = true := by
  unfold crossesLine
  rw [h.gap_append, decide_eq_true hline, Bool.true_or]

/-- What is passed over in front of a text without a gap is a gap, or the rest of a comment and a
gap. -/
theorem isGap_of_gap {inComment : Bool} {g : List Char} {x : Char}
    (h : (gap inComment (g ++ [x])).2 = [x]) :
    if inComment then ∃ text g', g = text ++ '\n' :: g' ∧ '\n' ∉ text ∧ IsGap g' else IsGap g := by
  -- The cases are those of the reader: a new line, a character to skip, a comment mark, or the end.
  induction g generalizing inComment with
  | nil =>
    cases inComment with
    | false => exact .nil
    | true => exact absurd h (gap_true_ne_self (List.cons_ne_nil _ _))
  | cons c g ih =>
    rw [List.cons_append, gap] at h
    split_ifs at h with hline hinside hcomment
    · have hg : IsGap g := ih h
      subst hline
      cases inComment with
      | false => exact .blank (by decide) hg
      | true => exact ⟨[], g, rfl, List.not_mem_nil, hg⟩
    · cases inComment with
      | false =>
        rw [Bool.false_or] at hinside
        exact .blank (isBlank_of_isInlineBlank hinside) (ih h)
      | true =>
        obtain ⟨text, g', rfl, htext, hg'⟩ := ih h
        exact ⟨c :: text, g', rfl, by simp [Ne.symm hline, htext], hg'⟩
    · -- The comment begins here, with one character or two.
      have hout : inComment = false := by
        cases inComment with
        | false => rfl
        | true => exact absurd (Bool.true_or _) hinside
      subst hout
      obtain ⟨text, g', rfl, htext, hg'⟩ := ih h
      rw [startsComment_cons, Bool.or_eq_true, Bool.and_eq_true, beq_iff_eq, beq_iff_eq,
        beq_iff_eq] at hcomment
      rcases hcomment with rfl | ⟨rfl, hslash⟩
      · exact @IsGap.comment ['#'] _ _ (by decide) htext hg'
      · cases text with
        | nil => cases hslash
        | cons d text =>
          obtain rfl : d = '/' := Option.some.inj hslash
          rw [List.mem_cons, not_or] at htext
          exact @IsGap.comment ['/', '/'] _ _ (by decide) htext.2 hg'
    · have hlength := congrArg List.length h
      simp only [List.length_cons, List.length_append] at hlength
      omega

/-- A gap is exactly what is passed over. -/
theorem isGap_iff {g : List Char} : IsGap g ↔ afterGap (g ++ ['x']) = ['x'] := by
  constructor
  · intro h
    rw [h.afterGap_append]
    rfl
  · intro h
    exact isGap_of_gap h

instance (g : List Char) : Decidable (IsGap g) := decidable_of_iff _ isGap_iff.symm

/-! ## Separators -/

/-- A gap that may stand right behind a field: it does not begin with two slashes, which a slash at
the end of the field would make three. -/
def IsClearGap (g : List Char) : Prop := IsGap g ∧ ¬ ['/', '/'] <+: g

/-- What separates two fields: a gap with a new line in it, or a comma between two gaps. -/
inductive Separates : List Char → Prop
  /-- A new line. -/
  | line {g : List Char} (hg : IsClearGap g) (hline : '\n' ∈ g) : Separates g
  /-- A comma. -/
  | comma {g g' : List Char} (hg : IsClearGap g) (hg' : IsGap g') : Separates (g ++ ',' :: g')

instance (g : List Char) : Decidable (IsClearGap g) := inferInstanceAs (Decidable (_ ∧ _))

/-- What follows a gap right behind a field begins with no slash. -/
theorem IsClearGap.head?_append_ne {g s : List Char} (h : IsClearGap g)
    (hs : s.head? ≠ some '/') : (g ++ s).head? ≠ some '/' := by
  obtain ⟨hg, hslashes⟩ := h
  cases hg with
  | nil => exact hs
  | blank hc _ =>
    intro hhead
    rw [Option.some.inj hhead] at hc
    cases hc
  | comment hmark _ _ =>
    simp only [commentMarks, List.mem_cons, List.not_mem_nil, or_false] at hmark
    rcases hmark with rfl | rfl
    · exact nofun
    · exact absurd (List.prefix_append _ _) hslashes

/-- The next element may stand behind a comma, whatever it is. -/
theorem IsGap.nextElement_comma {g : List Char} (h : IsGap g) (closing : Closing)
    (s : List Char) : nextElement closing (g ++ ',' :: s) = some s := by
  refine nextElement_of_comma ?_
  rw [h.afterGap_append]
  exact afterGap_eq_self_iff.2 ⟨by decide, rfl⟩

/-- The next element may stand behind a separator, if no comma stands there. -/
theorem Separates.exists_nextElement {g s : List Char} (h : Separates g) (closing : Closing)
    (hs : (afterGap s).head? ≠ some ',') :
    ∃ next, nextElement closing (g ++ s) = some next ∧ afterGap next = afterGap s := by
  cases h with
  | line hg hline =>
    -- A comma behind the gap would be taken for the separator, so none may stand there.
    refine ⟨afterGap s, ?_, afterGap_afterGap s⟩
    have hgap := hg.1.afterGap_append s
    rw [nextElement_of_not_comma (by rw [hgap]; exact hs), hgap, hg.1.crossesLine_append hline,
      Bool.true_or, if_pos rfl]
  | @comma g g' hg hg' =>
    -- The gap behind the comma is left for the next element.
    refine ⟨g' ++ s, ?_, hg'.afterGap_append s⟩
    rw [List.append_assoc]
    exact hg.1.nextElement_comma closing _

/-- What follows a separator begins with no slash. -/
theorem Separates.head?_append_ne {g : List Char} (h : Separates g) (s : List Char) :
    (g ++ s).head? ≠ some '/' := by
  cases h with
  | @line g hg hline =>
    have hne : g ≠ [] := List.ne_nil_of_mem hline
    rw [List.head?_append_of_ne_nil _ hne, ← List.append_nil g]
    exact hg.head?_append_ne nofun
  | comma hg _ =>
    rw [List.append_assoc]
    exact hg.head?_append_ne (by simp)

/-! ## Fields in sequence -/

/-- Field texts, each with what separates it from the next one. -/
def joined (front : List (FieldText × List Char)) : List Char :=
  front.flatMap fun p => p.1.text ++ p.2

/-- What field texts with their separators begin with. -/
theorem afterGap_joined {front : List (FieldText × List Char)} (h : ∀ p ∈ front, Separates p.2)
    {s : List Char} {d : Char} (hquote : d ≠ '"') (hd : isKeyChar d = false)
    (hs : (afterGap s).head? ≠ some d) : (afterGap (joined front ++ s)).head? ≠ some d := by
  cases front with
  | nil => exact hs
  | cons p front =>
    obtain ⟨f, sep⟩ := p
    have hsep := h _ List.mem_cons_self
    rw [joined, List.flatMap_cons, List.append_assoc, List.append_assoc]
    exact f.head?_afterGap_append (hsep.head?_append_ne _) hquote hd

/-- Field texts with separators are read one after another. -/
theorem fields_joined {front : List (FieldText × List Char)} (h : ∀ p ∈ front, Separates p.2)
    {s : List Char} (closing : Closing) (hs : (afterGap s).head? ≠ some ',') :
    fields closing (joined front ++ s) =
      (fields closing s).map fun (fs, after) => (front.map (·.1.field) ++ fs, after) := by
  -- By induction on the field texts. A result of the fields behind the first one is passed on, and
  -- so is a fault there.
  induction front with
  | nil =>
    show fields closing s = _
    cases fields closing s <;> rfl
  | cons p front ih =>
    obtain ⟨f, sep⟩ := p
    have hsep := h _ List.mem_cons_self
    have hmore : ∀ p ∈ front, Separates p.2 := fun p hp => h p (List.mem_cons_of_mem _ hp)
    obtain ⟨next, hnext, hgap⟩ :=
      hsep.exists_nextElement closing (afterGap_joined hmore (by decide) (by decide) hs)
    rw [show joined ((f, sep) :: front) ++ s = f.text ++ (sep ++ (joined front ++ s)) by
        simp [joined],
      f.fields_append (hsep.head?_append_ne _) hnext, fields_of_afterGap_eq hgap, ih hmore]
    cases fields closing s <;> rfl

/-- No field begins with a comma. -/
theorem fields_comma {closing : Closing} (s : List Char) :
    fields closing (',' :: s) = .error ⟨.expectedKey, ',' :: s⟩ := by
  have hself : afterGap (',' :: s) = ',' :: s := afterGap_eq_self_iff.2 ⟨by decide, rfl⟩
  have hkey : keyPath (',' :: s) = .ok none := rfl
  rw [fields_eq, hself, if_neg (by cases closing <;> simp [Closing.reached]), if_neg (by simp),
    field_eq, hkey]

/-! ## Whole texts -/

/-- The place where the rest of a text begins is the one right after the text before it. -/
theorem Position.ofRest_append (text rest : List Char) :
    Position.ofRest (text ++ rest) rest = Position.after text := by
  rw [Position.ofRest, List.length_append, Nat.add_sub_cancel, List.take_left]

/-- Field texts with separators between them are read one after another as the root fields, up to
the last one and what stands behind it. -/
theorem document_joined {leading s : List Char} {front : List (FieldText × List Char)}
    (hleading : IsGap leading) (h : ∀ p ∈ front, Separates p.2) (last : FieldText)
    (hs : s.head? ≠ some '/') : document (leading ++ (joined front ++ (last.text ++ s))) =
      (fields .endOfText (last.text ++ s)).map fun p => front.map (·.1.field) ++ p.1 := by
  have hcomma := last.head?_afterGap_append hs (d := ',') (by decide) (by decide)
  have hbrace := last.head?_afterGap_append hs (d := '{') (by decide) (by decide)
  have hgap := hleading.afterGap_append (joined front ++ (last.text ++ s))
  have hfront := afterGap_joined h (by decide) (by decide) hbrace
  rw [document_of_not_brace (by rw [hgap]; exact hfront), fields_of_afterGap_eq hgap,
    fields_joined h .endOfText hcomma]
  cases fields .endOfText (last.text ++ s) <;> rfl

/-- What may stand behind the last field begins with no slash. -/
theorem head?_ne_of_tail {tail : List Char} (h : IsClearGap tail ∨ Separates tail) :
    tail.head? ≠ some '/' := by
  rw [← List.append_nil tail]
  rcases h with hclear | hsep
  · exact hclear.head?_append_ne (by simp)
  · exact hsep.head?_append_ne []

/-- The text may end behind a gap or one more separator. -/
theorem exists_nextElement_tail {tail : List Char} (h : IsClearGap tail ∨ Separates tail) :
    ∃ next, nextElement .endOfText tail = some next ∧ afterGap next = [] := by
  rw [← List.append_nil tail]
  rcases h with hclear | hsep
  · have hend : afterGap (tail ++ []) = [] := hclear.1.afterGap_append []
    have hcomma : (afterGap (tail ++ [])).head? ≠ some ',' := by
      rw [hend]
      simp
    refine ⟨[], ?_, rfl⟩
    rw [nextElement_of_not_comma hcomma, hend]
    simp [Closing.reached]
  · exact hsep.exists_nextElement .endOfText (by decide)

/-- The last field text, with a gap or one more separator behind it. -/
theorem FieldText.fields_last (f : FieldText) {tail : List Char}
    (h : IsClearGap tail ∨ Separates tail) :
    fields .endOfText (f.text ++ tail) = .ok ([f.field], []) := by
  obtain ⟨next, hnext, hgap⟩ := exists_nextElement_tail h
  have hnone : Reads (.fields .endOfText []) next [] := reads_fields_text hgap
  have hend : fields .endOfText next = .ok ([], []) := hnone.isRead
  rw [f.fields_append (head?_ne_of_tail h) hnext, hend]
  rfl

/-- The last field text, where two commas with nothing but a gap between them stand behind it. -/
theorem FieldText.fields_commas (f : FieldText) {before after : List Char}
    (hbefore : IsClearGap before) (hafter : IsGap after) (closing : Closing) (rest : List Char) :
    fields closing (f.text ++ (before ++ ',' :: (after ++ ',' :: rest))) =
      .error ⟨.expectedKey, ',' :: rest⟩ := by
  have hslash : (before ++ ',' :: (after ++ ',' :: rest)).head? ≠ some '/' :=
    hbefore.head?_append_ne (by simp)
  rw [f.fields_append hslash (hbefore.1.nextElement_comma closing _),
    fields_of_afterGap_eq (hafter.afterGap_append _), fields_comma]
  rfl

end Grammar

open Grammar

namespace Document

/-- A text that is refused is refused at the place where its wrong part begins. -/
theorem parse_of_document_eq_error {good bad : List Char} {problem : Problem}
    (h : document (good ++ bad) = .error ⟨problem, bad⟩) :
    parse (String.ofList (good ++ bad)) = .error ⟨.after good, problem⟩ := by
  unfold parse
  rw [String.toList_ofList, h]
  dsimp only
  rw [Position.ofRest_append]

/-- Field texts with separators between them describe the object into which each field is inserted
in turn, whatever the separators are, and whether or not one more stands at the end. A comma right
behind another one, or before the first field, is refused: a field should stand there. -/
theorem parse_separated {leading : List Char} {front : List (FieldText × List Char)}
    (hleading : IsGap leading) (hfront : ∀ p ∈ front, Separates p.2) (last : FieldText) :
    (∀ tail, IsClearGap tail ∨ Separates tail →
      parse (String.ofList (leading ++ (joined front ++ (last.text ++ tail)))) =
        .ok ⟨Object.ofFields (front.map (·.1.field) ++ [last.field])⟩) ∧
    (∀ before after rest, IsClearGap before → IsGap after →
      parse (String.ofList
          (leading ++ (joined front ++ (last.text ++ (before ++ ',' :: after))) ++ ',' :: rest)) =
        .error ⟨.after (leading ++ (joined front ++ (last.text ++ (before ++ ',' :: after)))),
          .expectedKey⟩) ∧
    ∀ rest, parse (String.ofList (leading ++ ',' :: rest)) =
      .error ⟨.after leading, .expectedKey⟩ := by
  refine ⟨?_, ?_, ?_⟩
  · intro tail htail
    refine parse_of_document ?_
    rw [document_joined hleading hfront last (head?_ne_of_tail htail), last.fields_last htail]
    rfl
  · intro before after rest hbefore hafter
    have hslash : (before ++ ',' :: (after ++ ',' :: rest)).head? ≠ some '/' :=
      hbefore.head?_append_ne (by simp)
    refine parse_of_document_eq_error ?_
    simp only [List.append_assoc, List.cons_append]
    rw [document_joined hleading hfront last hslash, last.fields_commas hbefore hafter]
    rfl
  · intro rest
    have hgap : afterGap (leading ++ ',' :: rest) = ',' :: rest := by
      rw [hleading.afterGap_append]
      exact afterGap_eq_self_iff.2 ⟨by decide, rfl⟩
    refine parse_of_document_eq_error ?_
    rw [document_of_not_brace (by rw [hgap]; simp), ← fields_of_afterGap_eq (afterGap_afterGap _),
      hgap, fields_comma]
    rfl

/-- A path, an object and a word with a slash at its end: with comments and commas between them, and
with a second comma behind the word. -/
theorem parse_separated_mixed :
    parse "# keys\na.b: 1 // one\n, c \x7b d = x \x7d\n\ne: y/ , # end\n" =
        .ok ⟨[("a", .object [("b", .number "1")]), ("c", .object [("d", .string "x")]),
          ("e", .string "y/")]⟩ ∧
      parse "# keys\na.b: 1 // one\n, c \x7b d = x \x7d\n\ne: y/ , # end\n,z: 1" =
        .error ⟨⟨6, 1⟩, .expectedKey⟩ := by
  have hleading : IsGap "# keys\n".toList := by decide
  let path : FieldText := ⟨"a.b: 1".toList, ⟨["a", "b"], .number "1"⟩, by decide +kernel, by decide⟩
  let object : FieldText :=
    ⟨"c \x7b d = x \x7d".toList, ⟨["c"], .object [("d", .string "x")]⟩, by decide +kernel, by decide⟩
  let word : FieldText := ⟨"e: y/".toList, ⟨["e"], .string "y/"⟩, by decide +kernel, by decide⟩
  have hcomma : Separates " // one\n, ".toList :=
    @Separates.comma " // one\n".toList " ".toList (by decide) (by decide)
  have hline : Separates "\n\n".toList := .line (by decide) (by decide)
  have hfront : ∀ p ∈ [(path, " // one\n, ".toList), (object, "\n\n".toList)], Separates p.2 :=
    List.forall_mem_cons.2 ⟨hcomma, List.forall_mem_singleton.2 hline⟩
  have hend : Separates " , # end\n".toList :=
    @Separates.comma " ".toList " # end\n".toList (by decide) (by decide)
  obtain ⟨hok, herror, _⟩ := parse_separated hleading hfront word
  have hparse := hok _ (Or.inr hend)
  have hrefuse := herror " ".toList " # end\n".toList "z: 1".toList (by decide) (by decide)
  exact ⟨hparse, hrefuse⟩

end Document

end LeaderKey
