import LeaderKey.Grammar.Fault

/-!
# Quoted texts

`quotedBody` reads a text in quotes from its first character on: characters stand for themselves,
a backslash begins an escape, and neither the line nor the text may end before the closing quote.
`tripleBody` reads a text in triple quotes, which has no escapes and may cross lines. What either
leaves is a proper suffix of what it was given.
-/

namespace LeaderKey.Grammar

/-- The value of a hexadecimal digit. -/
def hexDigit? (c : Char) : Option Nat :=
  if c.isDigit then some (c.toNat - '0'.toNat)
  else if 'a' ≤ c ∧ c ≤ 'f' then some (c.toNat - 'a'.toNat + 10)
  else if 'A' ≤ c ∧ c ≤ 'F' then some (c.toNat - 'A'.toNat + 10)
  else none

/-- The number that hexadecimal digits spell. -/
def hexNumber? (ds : List Char) : Option Nat :=
  ds.foldlM (fun n d => (hexDigit? d).map (16 * n + ·)) 0

/-- The character that the four places after `\u` name: a hexadecimal number, which may have a plus
sign in the first place, if it is the number of a character. -/
def escapedScalar? (a b c d : Char) : Option Char := do
  let n ← hexNumber? (if a = '+' then [b, c, d] else [a, b, c, d])
  if n.isValidChar then some (Char.ofNat n) else none

/-- The character that a backslash and one other character name. -/
def escapedChar? : Char → Option Char
  | '"' => some '"'
  | '\\' => some '\\'
  | '/' => some '/'
  | 'b' => some '\x08'
  | 'f' => some '\x0c'
  | 'n' => some '\n'
  | 'r' => some '\r'
  | 't' => some '\t'
  | _ => none

/-- Reads an escape after its backslash. -/
def escape : List Char → Except Problem (Char × List Char)
  | [] => .error .badEscape
  | e :: rest =>
    if e = 'u' then
      match rest with
      | a :: b :: c :: d :: rest =>
        match escapedScalar? a b c d with
        | some scalar => .ok (scalar, rest)
        | none => .error .badUnicodeEscape
      | _ => .error .badUnicodeEscape
    else
      match escapedChar? e with
      | some c => .ok (c, rest)
      | none => .error .badEscape

/-- The text after an escape is a suffix of the text after its backslash, and shorter. -/
theorem escape_suffix {s rest : List Char} {c : Char} (h : escape s = .ok (c, rest)) :
    rest <:+ s ∧ rest.length < s.length := by
  unfold escape at h
  split at h
  · simp at h
  · split at h
    · split at h
      · split at h
        · cases h
          exact ⟨⟨[_, _, _, _, _], rfl⟩, by simp; omega⟩
        · simp at h
      · simp at h
    · split at h
      · cases h
        exact ⟨List.suffix_cons _ _, by simp⟩
      · simp at h

/-- Puts a character in front of what was read. -/
def Result.cons (c : Char) : Result (List Char) → Result (List Char) :=
  Except.map fun (text, rest) => (c :: text, rest)

/-- What was read with one more character in front. -/
theorem Result.cons_eq_ok {c : Char} {r : Result (List Char)} {text rest : List Char} :
    r.cons c = .ok (text, rest) ↔ ∃ t, text = c :: t ∧ r = .ok (t, rest) := by
  rcases r with f | ⟨t, u⟩
  · simp [Result.cons, Except.map]
  · simp only [Result.cons, Except.map, Except.ok.injEq, Prod.mk.injEq]
    constructor
    · rintro ⟨rfl, rfl⟩; exact ⟨t, rfl, rfl, rfl⟩
    · rintro ⟨_, rfl, rfl, rfl⟩; exact ⟨rfl, rfl⟩

/-- Reads a quoted text after its opening quote, up to and with the closing one. -/
def quotedBody (s : List Char) : Result (List Char) :=
  match s with
  | [] => .error ⟨.unterminatedQuote, []⟩
  | c :: rest =>
    if c = '"' then .ok ([], rest)
    else if c = '\n' then .error ⟨.unterminatedQuote, c :: rest⟩
    else if c = '\\' then
      match _ : escape rest with
      | .ok (scalar, after) => (quotedBody after).cons scalar
      | .error problem => .error ⟨problem, c :: rest⟩
    else (quotedBody rest).cons c
termination_by s.length
decreasing_by
  · have := (escape_suffix ‹escape _ = _›).2
    simp only [List.length_cons]
    omega
  · simp

/-- The text after a quoted text is a suffix of the text after its opening quote, and shorter. -/
theorem quotedBody_suffix {s text rest : List Char} (h : quotedBody s = .ok (text, rest)) :
    rest <:+ s ∧ rest.length < s.length := by
  fun_induction quotedBody s generalizing text with
  | case1 => simp at h
  | case2 => cases h; exact ⟨List.suffix_cons _ _, by simp⟩
  | case3 => simp at h
  | case4 r scalar after he _ _ ih =>
    obtain ⟨t, _, ht⟩ := Result.cons_eq_ok.1 h
    have := ih ht
    have := escape_suffix he
    exact ⟨(ih ht).1.trans (this.1.trans (List.suffix_cons _ _)), by simp; omega⟩
  | case5 => simp at h
  | case6 c r _ _ _ ih =>
    obtain ⟨t, _, ht⟩ := Result.cons_eq_ok.1 h
    have := ih ht
    exact ⟨this.1.trans (List.suffix_cons _ _), by simp; omega⟩

/-- Reads a text in triple quotes after the opening ones: it ends at the first triple quote. -/
def tripleBody : List Char → Option (List Char × List Char)
  | [] => none
  | '"' :: '"' :: '"' :: rest => some ([], rest)
  | c :: rest => (tripleBody rest).map fun (text, rest) => (c :: text, rest)

/-- The text after a triple-quoted text is a suffix of the text after its opening quotes, and
shorter. -/
theorem tripleBody_suffix {s text rest : List Char} (h : tripleBody s = some (text, rest)) :
    rest <:+ s ∧ rest.length < s.length := by
  fun_induction tripleBody s generalizing text with
  | case1 => simp at h
  | case2 r => cases h; exact ⟨⟨['"', '"', '"'], rfl⟩, by simp; omega⟩
  | case3 c r _ ih =>
    obtain ⟨⟨t, u⟩, ht, hu⟩ := Option.map_eq_some_iff.1 h
    cases hu
    have := ih ht
    exact ⟨this.1.trans (List.suffix_cons _ _), by simp; omega⟩

end LeaderKey.Grammar
