import LeaderKey.Proofs.Grammar.Written

/-!
# What may stand between quotes

A quoted text is written character by character: a character stands for itself, behind a backslash
stands a letter for it, or behind `\u` its number in base sixteen. `quotedBody_eq_ok_iff` says that
exactly these texts are read, and as what, and `quotedText_exact` that everything else is refused,
as a key and as a piece of a value. The number of a character has four places. They should be four
digits, but a plus sign and three digits are taken too: `signed_escape_read` is such a text.
-/

namespace LeaderKey.Grammar

open LeaderKey.Text

/-! ## Characters between quotes -/

/-- The hexadecimal digits and their values. -/
def hexDigits : List (Char × Nat) :=
  "0123456789abcdef".toList.zipIdx ++ "ABCDEF".toList.zipIdx 10

/-- The digits spell `n` in base sixteen, if the digits before them spell `front`. -/
def SpellsFrom (front : Nat) (digits : List Char) (n : Nat) : Prop :=
  ∃ values, List.Forall₂ (fun digit value => (digit, value) ∈ hexDigits) digits values ∧
    values.foldl (fun n value => 16 * n + value) front = n

/-- Four digits that spell `n` in base sixteen. -/
def FourDigits (places : List Char) (n : Nat) : Prop := places.length = 4 ∧ SpellsFrom 0 places n

/-- A plus sign and three digits that spell `n` in base sixteen. -/
def SignedDigits (places : List Char) (n : Nat) : Prop :=
  ∃ digits, places = '+' :: digits ∧ digits.length = 3 ∧ SpellsFrom 0 digits n

/-- The four places after `\u` that are taken for the number `n`. -/
def EscapePlaces (places : List Char) (n : Nat) : Prop :=
  FourDigits places n ∨ SignedDigits places n

/-- The characters that may stand behind a backslash, and what they stand for. -/
def shortEscapes : List (Char × Char) :=
  [('"', '"'), ('\\', '\\'), ('/', '/'), ('b', '\x08'), ('f', '\x0c'), ('n', '\n'), ('r', '\r'),
    ('t', '\t')]

/-- The ways to write a character between quotes, where `number` says which places after `\u` stand
for which number. -/
inductive Writes (number : List Char → Nat → Prop) (c : Char) : List Char → Prop
  /-- The character itself. -/
  | self (hquote : c ≠ '"') (hescape : c ≠ '\\') (hline : c ≠ '\n') : Writes number c [c]
  /-- A backslash and a character that stands for it. -/
  | short {e : Char} (h : (e, c) ∈ shortEscapes) : Writes number c ['\\', e]
  /-- Its number. -/
  | code {places : List Char} (h : number places c.toNat) :
    Writes number c ('\\' :: 'u' :: places)

/-- Behind an opening quote, `text` is written one character after another; then come the closing
quote and `rest`. -/
def QuotedAs (number : List Char → Nat → Prop) (s text rest : List Char) : Prop :=
  ∃ written : List (List Char), List.Forall₂ (Writes number) text written ∧
    s = written.flatten ++ '"' :: rest

/-! ## Escapes -/

/-- The value of a hexadecimal digit is the one in the table. -/
theorem hexDigit?_eq_some_iff {digit : Char} {value : Nat} :
    hexDigit? digit = some value ↔ (digit, value) ∈ hexDigits := by
  constructor
  · intro h
    -- Each of the three ranges is a run of the table.
    have hdecimal : ∀ n < 58, 48 ≤ n → (Char.ofNat n, n - 48) ∈ hexDigits := by decide
    have hlower : ∀ n < 103, 97 ≤ n → (Char.ofNat n, n - 97 + 10) ∈ hexDigits := by decide
    have hupper : ∀ n < 71, 65 ≤ n → (Char.ofNat n, n - 65 + 10) ∈ hexDigits := by decide
    rw [← Char.ofNat_toNat digit]
    simp only [hexDigit?, Char.isDigit, ge_iff_le, Bool.and_eq_true, decide_eq_true_eq,
      Char.le_def, UInt32.le_iff_toNat_le] at h
    split_ifs at h with h0 ha hA
    · obtain rfl := Option.some.inj h
      exact hdecimal _ (Nat.lt_succ_of_le h0.2) h0.1
    · obtain rfl := Option.some.inj h
      exact hlower _ (Nat.lt_succ_of_le ha.2) ha.1
    · obtain rfl := Option.some.inj h
      exact hupper _ (Nat.lt_succ_of_le hA.2) hA.1
  · intro h
    have hall : ∀ e ∈ hexDigits, hexDigit? e.1 = some e.2 := by decide
    exact hall _ h

/-- Digits that are read one by one are digits that spell the number. -/
theorem foldlM_hexDigit?_eq_some_iff {digits : List Char} {front n : Nat} :
    digits.foldlM (fun n digit => (hexDigit? digit).map (16 * n + ·)) front = some n ↔
      SpellsFrom front digits n := by
  induction digits generalizing front with
  | nil =>
    constructor
    · intro h
      exact ⟨[], .nil, Option.some.inj h⟩
    · rintro ⟨values, hvalues, hn⟩
      cases hvalues
      exact congrArg some hn
  | cons digit digits ih =>
    rw [List.foldlM_cons]
    constructor
    · intro h
      obtain ⟨m, hm, hmore⟩ := Option.bind_eq_some_iff.1 h
      obtain ⟨value, hvalue, rfl⟩ := Option.map_eq_some_iff.1 hm
      obtain ⟨values, hvalues, hn⟩ := ih.1 hmore
      exact ⟨value :: values, .cons (hexDigit?_eq_some_iff.1 hvalue) hvalues, hn⟩
    · rintro ⟨values, hvalues, hn⟩
      cases hvalues with
      | @cons _ value _ values hvalue hmore =>
        rw [hexDigit?_eq_some_iff.2 hvalue]
        exact ih.2 ⟨values, hmore, hn⟩

/-- A number that names a character is the number of that character. -/
theorem eq_toNat_iff {n : Nat} {c : Char} :
    (if n.isValidChar then some (Char.ofNat n) else none) = some c ↔ n = c.toNat := by
  constructor
  · intro h
    split at h
    · rename_i hvalid
      obtain rfl := Option.some.inj h
      rw [Char.ofNat, dif_pos hvalid]
      rfl
    · cases h
  · rintro rfl
    have hvalid : c.toNat.isValidChar := c.valid
    rw [if_pos hvalid, Char.ofNat_toNat]

/-- A plus sign is no digit. -/
theorem not_spellsFrom_plus {front n : Nat} {digits : List Char} :
    ¬ SpellsFrom front ('+' :: digits) n := by
  have hall : ∀ e ∈ hexDigits, e.1 ≠ '+' := by decide
  rintro ⟨_, hvalues, _⟩
  cases hvalues with
  | cons hplus _ => exact hall _ hplus rfl

/-- The four places after `\u` name a character exactly if they are taken for its number. -/
theorem escapedScalar?_eq_some_iff {a b c d x : Char} :
    escapedScalar? a b c d = some x ↔ EscapePlaces [a, b, c, d] x.toNat := by
  unfold escapedScalar? hexNumber?
  rw [Option.bind_eq_bind, Option.bind_eq_some_iff]
  simp only [eq_toNat_iff, exists_eq_right]
  rw [foldlM_hexDigit?_eq_some_iff]
  split_ifs with hplus
  · subst hplus
    constructor
    · intro h
      exact Or.inr ⟨[b, c, d], rfl, rfl, h⟩
    · rintro (⟨_, h⟩ | ⟨digits, heq, _, h⟩)
      · exact absurd h not_spellsFrom_plus
      · cases heq
        exact h
  · constructor
    · intro h
      exact Or.inl ⟨rfl, h⟩
    · rintro (⟨_, h⟩ | ⟨digits, heq, _, _⟩)
      · exact h
      · cases heq
        exact absurd rfl hplus

/-- Four places are taken, with or without a sign. -/
theorem EscapePlaces.length_eq {places : List Char} {n : Nat} (h : EscapePlaces places n) :
    places.length = 4 := by
  obtain ⟨hlength, _⟩ | ⟨digits, rfl, hlength, _⟩ := h
  · exact hlength
  · rw [List.length_cons, hlength]

/-- The short escapes are the ones in the table. -/
theorem escapedChar?_eq_some_iff {e c : Char} :
    escapedChar? e = some c ↔ (e, c) ∈ shortEscapes := by
  constructor
  · intro h
    unfold escapedChar? at h
    split at h
    all_goals cases h
    all_goals decide
  · intro h
    have hall : ∀ p ∈ shortEscapes, escapedChar? p.1 = some p.2 := by decide
    exact hall _ h

/-- An escape that is read is a short one, or the number of a character. -/
theorem escape_eq_ok_iff {s rest : List Char} {c : Char} : escape s = .ok (c, rest) ↔
    (∃ e, (e, c) ∈ shortEscapes ∧ s = e :: rest) ∨
      ∃ places, EscapePlaces places c.toNat ∧ s = 'u' :: (places ++ rest) := by
  have hu : ∀ p ∈ shortEscapes, p.1 ≠ 'u' := by decide
  constructor
  · intro h
    cases s with
    | nil => cases h
    | cons e s =>
      by_cases he : e = 'u'
      · subst he
        obtain ⟨a, b, c, d, rfl, hscalar⟩ := escape_u_eq_ok.1 h
        exact Or.inr ⟨[a, b, c, d], escapedScalar?_eq_some_iff.1 hscalar, rfl⟩
      · left
        simp only [escape, if_neg he] at h
        split at h
        · rename_i hshort
          cases h
          exact ⟨e, escapedChar?_eq_some_iff.1 hshort, rfl⟩
        · cases h
  · rintro (⟨e, hshort, rfl⟩ | ⟨places, hplaces, rfl⟩)
    · simp only [escape, if_neg (hu _ hshort), escapedChar?_eq_some_iff.2 hshort]
    · obtain ⟨a, b, c, d, rfl⟩ := List.length_eq_four.1 hplaces.length_eq
      exact escape_u_eq_ok.2 ⟨a, b, c, d, rfl, escapedScalar?_eq_some_iff.2 hplaces⟩

/-! ## Texts in quotes -/

/-- The closing quote may come at once. -/
theorem quotedAs_nil (number : List Char → Nat → Prop) (rest : List Char) :
    QuotedAs number ('"' :: rest) [] rest :=
  ⟨[], .nil, rfl⟩

/-- One more character in front. -/
theorem QuotedAs.cons {number : List Char → Nat → Prop} {c : Char} {w s text rest : List Char}
    (h : QuotedAs number s text rest) (hw : Writes number c w) :
    QuotedAs number (w ++ s) (c :: text) rest := by
  obtain ⟨written, hwritten, rfl⟩ := h
  exact ⟨w :: written, .cons hw hwritten, by rw [List.flatten_cons, List.append_assoc]⟩

/-- What is written for a character is read back as the character. -/
theorem quotedBody_written {c : Char} {w : List Char} (h : Writes EscapePlaces c w)
    (s : List Char) : quotedBody (w ++ s) = (quotedBody s).cons c := by
  cases h with
  | self hquote hescape hline => exact quotedBody_self hquote hline hescape s
  | @short e hshort =>
    have hread : escape (e :: s) = .ok (c, s) := escape_eq_ok_iff.2 (Or.inl ⟨e, hshort, rfl⟩)
    show quotedBody ('\\' :: e :: s) = _
    rw [quotedBody_backslash, hread]
  | @code places hplaces =>
    have hread : escape ('u' :: (places ++ s)) = .ok (c, s) :=
      escape_eq_ok_iff.2 (Or.inr ⟨places, hplaces, rfl⟩)
    show quotedBody ('\\' :: 'u' :: (places ++ s)) = _
    rw [quotedBody_backslash, hread]

/-- A quoted text is read exactly if it is written as one. -/
theorem quotedBody_eq_ok_iff {s text rest : List Char} :
    quotedBody s = .ok (text, rest) ↔ QuotedAs EscapePlaces s text rest := by
  constructor
  · intro h
    fun_induction quotedBody s generalizing text with
    | case1 => cases h
    | case2 =>
      cases h
      exact quotedAs_nil _ _
    | case3 => cases h
    | case4 r c after he _ _ ih =>
      obtain ⟨t, rfl, ht⟩ := Result.cons_eq_ok.1 h
      obtain ⟨e, hshort, rfl⟩ | ⟨places, hplaces, rfl⟩ := escape_eq_ok_iff.1 he
      · exact (ih ht).cons (.short hshort)
      · exact (ih ht).cons (.code hplaces)
    | case5 => cases h
    | case6 c r hquote hline hescape ih =>
      obtain ⟨t, rfl, ht⟩ := Result.cons_eq_ok.1 h
      exact (ih ht).cons (.self hquote hescape hline)
  · rintro ⟨written, hwritten, rfl⟩
    induction hwritten with
    | nil =>
      rw [List.flatten_nil, List.nil_append, quotedBody, if_pos rfl]
    | cons hw _ ih =>
      rw [List.flatten_cons, List.append_assoc, quotedBody_written hw, ih]
      rfl

/-- A quoted token is a quoted text that is read. -/
theorem quotedToken_eq_ok_iff {r : Result (List Char)} {t : Token} {rest : List Char} :
    r.map (fun (text, after) => some (.quoted text, after)) = .ok (some (t, rest)) ↔
      ∃ text, t = .quoted text ∧ r = .ok (text, rest) := by
  constructor
  · intro h
    obtain ⟨⟨text, after⟩, hr, heq⟩ := of_map_eq_ok h
    cases heq
    exact ⟨text, rfl, hr⟩
  · rintro ⟨text, rfl, rfl⟩
    rfl

/-- A text in triple quotes ends at the first triple quote. -/
theorem tripleBody_eq_some_iff {s text rest : List Char} : tripleBody s = some (text, rest) ↔
    s = text ++ '"' :: '"' :: '"' :: rest ∧ ¬ ['"', '"', '"'] <:+: text ++ ['"', '"'] := by
  constructor
  · intro h
    fun_induction tripleBody s generalizing text with
    | case1 => cases h
    | case2 r =>
      cases h
      exact ⟨rfl, by decide⟩
    | case3 c r hnot ih =>
      obtain ⟨⟨t, u⟩, ht, hu⟩ := Option.map_eq_some_iff.1 h
      cases hu
      obtain ⟨rfl, hfirst⟩ := ih ht
      refine ⟨rfl, fun hinfix => ?_⟩
      rcases List.infix_cons_iff.1 hinfix with hprefix | hlater
      · obtain ⟨rfl, hquotes⟩ := List.cons_prefix_cons.1 hprefix
        -- Two quotes at the front of the text would make a triple quote with the one before them.
        obtain ⟨v, hv⟩ := hquotes.trans (List.prefix_append _ ('"' :: rest))
        refine hnot v rfl ?_
        simpa using hv.symm
      · exact hfirst hlater
  · rintro ⟨rfl, hfirst⟩
    induction text with
    | nil => rfl
    | cons c t ih =>
      rw [List.cons_append, List.infix_cons_iff, not_or] at hfirst
      rw [List.cons_append, tripleBody.eq_3, ih hfirst.2]
      · rfl
      · intro v hc hv
        apply hfirst.1
        rw [hc, List.cons_prefix_cons]
        refine ⟨rfl, List.prefix_of_prefix_length_le ⟨v, hv.symm⟩ ⟨'"' :: rest, ?_⟩ ?_⟩
        · simp
        · simp

/-! ## What is refused -/

/-- A quoted text that is wrong is refused as a key, also behind a dot. -/
theorem field_of_wrong_quote {s : List Char} {fault : Fault} (h : quotedBody s = .error fault) :
    field ('"' :: s) = .error fault ∧ moreKeys ('.' :: '"' :: s) = .error fault := by
  have hkey : key ('"' :: s) = .error fault := by
    show (quotedBody s).map some = _
    rw [h]
    rfl
  constructor
  · rw [field_eq, keyPath, hkey]
  · rw [moreKeys_dot, hkey]

/-- A quoted text that is wrong is refused as a value, also behind other tokens. -/
theorem value_of_wrong_quote {s : List Char} {fault : Fault} (h : quotedBody s = .error fault) :
    value ('"' :: s) = .error fault ∧ ∀ blanks, (∀ c ∈ blanks, isInlineBlank c = true) →
      moreTokens (blanks ++ '"' :: s) = .error fault := by
  have hfirst : ¬ ['"', '"'] <+: s := by
    rintro ⟨r, rfl⟩
    rw [List.cons_append, quotedBody, if_pos rfl] at h
    cases h
  have htoken : token ('"' :: s) = .error fault := by
    rw [token_of_not_triple hfirst, h]
    rfl
  have hscalar : scalar ('"' :: s) = .error fault := by rw [scalar, htoken]
  constructor
  · rw [value_eq]
    split
    · rename_i heq
      cases heq
    · rename_i heq
      cases heq
    · rw [hscalar]
  · intro blanks hblanks
    have hself : afterBlanks ('"' :: s) = '"' :: s := List.dropWhile_cons_of_neg (by decide)
    rw [moreTokens_eq, afterBlanks_append_blanks hblanks, hself, htoken]

/-- Behind an opening quote, exactly the texts in quotes are read, as a key and, unless two more
quotes follow, as a token; three quotes begin a text up to the next three. What is no text in quotes
is refused, wherever a key or a piece of a value begins with it. -/
theorem quotedText_exact (s : List Char) :
    (∀ text rest, key ('"' :: s) = .ok (some (text, rest)) ↔ QuotedAs EscapePlaces s text rest) ∧
    (¬ ['"', '"'] <+: s → ∀ t rest, token ('"' :: s) = .ok (some (t, rest)) ↔
      ∃ text, t = .quoted text ∧ QuotedAs EscapePlaces s text rest) ∧
    (∀ r, s = '"' :: '"' :: r → ∀ t rest, token ('"' :: s) = .ok (some (t, rest)) ↔
      ∃ text, t = .quoted text ∧ r = text ++ '"' :: '"' :: '"' :: rest ∧
        ¬ ['"', '"', '"'] <:+: text ++ ['"', '"']) ∧
    ((∀ text rest, ¬ QuotedAs EscapePlaces s text rest) →
      ∃ fault, field ('"' :: s) = .error fault ∧ moreKeys ('.' :: '"' :: s) = .error fault ∧
        value ('"' :: s) = .error fault ∧ ∀ blanks, (∀ c ∈ blanks, isInlineBlank c = true) →
          moreTokens (blanks ++ '"' :: s) = .error fault) := by
  refine ⟨?_, ?_, ?_, ?_⟩
  · intro text rest
    show (quotedBody s).map some = _ ↔ _
    rw [← quotedBody_eq_ok_iff]
    cases quotedBody s <;> simp [Except.map]
  · intro hfirst t rest
    simp only [token_of_not_triple hfirst, quotedToken_eq_ok_iff, quotedBody_eq_ok_iff]
  · rintro r rfl t rest
    simp only [← tripleBody_eq_some_iff]
    rw [token]
    cases tripleBody r with
    | none => simp
    | some p =>
      obtain ⟨text, after⟩ := p
      constructor
      · intro h
        cases h
        exact ⟨text, rfl, rfl⟩
      · rintro ⟨_, rfl, heq⟩
        cases heq
        rfl
  · intro hwrong
    cases hread : quotedBody s with
    | ok p => exact absurd (quotedBody_eq_ok_iff.1 hread) (hwrong _ _)
    | error fault =>
      obtain ⟨hfield, hkeys⟩ := field_of_wrong_quote hread
      obtain ⟨hvalue, htokens⟩ := value_of_wrong_quote hread
      exact ⟨fault, hfield, hkeys, hvalue, htokens⟩

/-- A key with both kinds of escapes, and a text that is refused as a key and as a value. -/
theorem quotedText_exact_escapes :
    QuotedAs EscapePlaces "\\u00e9\\t\": 1".toList "é\t".toList ": 1".toList ∧
      ∃ fault, field "\"a\\u12\": 1".toList = .error fault ∧
        value "\"a\\u12\": 1".toList = .error fault := by
  have hkey : key "\"\\u00e9\\t\": 1".toList = .ok (some ("é\t".toList, ": 1".toList)) := by
    decide +kernel
  have hread : quotedBody "a\\u12\": 1".toList =
      .error ⟨.badUnicodeEscape, "\\u12\": 1".toList⟩ := by
    decide +kernel
  have hwrong (text rest : List Char) :
      ¬ QuotedAs EscapePlaces "a\\u12\": 1".toList text rest := by
    intro h
    rw [quotedBody_eq_ok_iff.2 h] at hread
    cases hread
  obtain ⟨fault, hfield, _, hvalue, _⟩ := (quotedText_exact _).2.2.2 hwrong
  exact ⟨((quotedText_exact _).1 _ _).1 hkey, fault, hfield, hvalue⟩

/-- Without signs, no text in quotes begins with an escape whose number begins with a plus sign. -/
theorem not_quotedAs_plus {s text rest : List Char} :
    ¬ QuotedAs FourDigits ('\\' :: 'u' :: '+' :: s) text rest := by
  have hshort : ∀ p ∈ shortEscapes, p.1 ≠ 'u' := by decide
  rintro ⟨written, hwritten, hs⟩
  cases hwritten with
  | nil => cases hs
  | cons hw _ =>
    rw [List.flatten_cons] at hs
    cases hw with
    | self _ hescape _ => exact hescape (List.cons.inj hs).1.symm
    | short h => exact hshort _ h (List.cons.inj (List.cons.inj hs).2).1.symm
    | @code places h =>
      obtain ⟨hlength, hspells⟩ := h
      cases places with
      | nil => cases hlength
      | cons place places =>
        obtain rfl := (List.cons.inj (List.cons.inj (List.cons.inj hs).2).2).1
        exact not_spellsFrom_plus hspells

/-- A plus sign and three digits are taken for four digits: the escape stands for a letter. -/
theorem signed_escape_read :
    Document.parse "a: \"\\u+041\"" = .ok ⟨[("a", .string "A")]⟩ ∧
      ¬ ∀ s text rest, quotedBody s = .ok (text, rest) ↔ QuotedAs FourDigits s text rest := by
  refine ⟨by decide +kernel, fun hexact => ?_⟩
  have hread : quotedBody "\\u+041\"".toList = .ok (['A'], []) := by decide +kernel
  exact not_quotedAs_plus ((hexact _ _ _).1 hread)

end LeaderKey.Grammar
