import LeaderKey.Grammar.Character
import LeaderKey.Grammar.Gap
import LeaderKey.Grammar.Quote
import LeaderKey.Number.Numeral
import LeaderKey.Value

/-!
# Scalars

A scalar is one or more tokens on one line: quoted texts, triple-quoted texts and bare words. A
bare word alone may be `null`, a truth value or a number. Anything else is the text made of the
tokens and of the blanks between them. `scalar_suffix` says that a scalar is never empty.
-/

namespace LeaderKey.Grammar

open LeaderKey.Text

/-- One piece of a scalar. -/
inductive Token where
  /-- A text that stood in quotes. -/
  | quoted (text : List Char)
  /-- A bare word. -/
  | bare (word : List Char)
  deriving DecidableEq

/-- The characters that a token stands for. -/
def Token.text : Token → List Char
  | .quoted text => text
  | .bare word => word

/-- Splits a text after the bare word at its front, which ends before a comment mark `//`. -/
def bareWord : List Char → List Char × List Char
  | [] => ([], [])
  | c :: rest =>
    if isBareChar c && !startsComment (c :: rest) then
      (c :: (bareWord rest).1, (bareWord rest).2)
    else ([], c :: rest)

/-- Nothing is lost when a bare word is split off. -/
theorem bareWord_append (s : List Char) : (bareWord s).1 ++ (bareWord s).2 = s := by
  induction s with
  | nil => rfl
  | cons c rest ih =>
    rw [bareWord]
    split
    · simp [ih]
    · rfl

/-- Reads a token, if one begins here. -/
def token : List Char → Attempt Token
  | '"' :: '"' :: '"' :: rest =>
    match tripleBody rest with
    | some (text, after) => .ok (some (.quoted text, after))
    | none => .error ⟨.unterminatedTripleQuote, '"' :: '"' :: '"' :: rest⟩
  | '"' :: rest => (quotedBody rest).map fun (text, after) => some (.quoted text, after)
  | s =>
    match bareWord s with
    | ([], _) => .ok none
    | (word, after) => .ok (some (.bare word, after))

/-- The text after a token is a suffix of the text with it, and shorter. -/
theorem token_suffix {s rest : List Char} {t : Token} (h : token s = .ok (some (t, rest))) :
    rest <:+ s ∧ rest.length < s.length := by
  unfold token at h
  split at h
  · split at h
    · rename_i hb
      cases h
      have := tripleBody_suffix hb
      exact ⟨this.1.trans ⟨['"', '"', '"'], rfl⟩, by simp; omega⟩
    · simp at h
  · rename_i r _
    cases hb : quotedBody r with
    | error f => simp [hb, Except.map] at h
    | ok p =>
      simp only [hb, Except.map, Except.ok.injEq, Option.some.injEq, Prod.mk.injEq] at h
      obtain ⟨-, rfl⟩ := h
      have := quotedBody_suffix hb
      exact ⟨this.1.trans (List.suffix_cons _ _), by simp; omega⟩
  · have happ := bareWord_append s
    split at h
    · simp at h
    · rename_i word after hne hb
      cases h
      rw [hb] at happ
      have := List.length_pos_iff.2 (show word ≠ [] from hne)
      rw [← happ]
      exact ⟨List.suffix_append _ _, by simp; omega⟩

/-- The text after the blanks at its front, within the line. -/
def afterBlanks (s : List Char) : List Char := s.dropWhile isInlineBlank

/-- The text after blanks is a suffix of the text. -/
theorem afterBlanks_suffix (s : List Char) : afterBlanks s <:+ s := List.dropWhile_suffix _

/-- Reads the tokens that follow the first one on its line, each with the blanks before it. -/
def moreTokens (s : List Char) : Result (List (List Char × Token)) :=
  match _ : token (afterBlanks s) with
  | .error fault => .error fault
  | .ok none => .ok ([], s)
  | .ok (some (t, rest)) =>
    (moreTokens rest).map fun (ts, after) => ((s.takeWhile isInlineBlank, t) :: ts, after)
termination_by s.length
decreasing_by
  have := (token_suffix ‹token _ = _›).2
  have := (afterBlanks_suffix s).length_le
  omega

/-- The text after further tokens is a suffix of the text with them. -/
theorem moreTokens_suffix {s rest : List Char} {ts : List (List Char × Token)}
    (h : moreTokens s = .ok (ts, rest)) : rest <:+ s := by
  fun_induction moreTokens s generalizing ts with
  | case1 => simp at h
  | case2 => cases h; exact List.suffix_refl _
  | case3 s t r ht ih =>
    cases hm : moreTokens r with
    | error f => simp [hm, Except.map] at h
    | ok p =>
      simp only [hm, Except.map, Except.ok.injEq, Prod.mk.injEq] at h
      obtain ⟨-, rfl⟩ := h
      exact ((ih hm).trans (token_suffix ht).1).trans (afterBlanks_suffix s)

/-- The value of a bare word that stands alone. -/
def wordValue (word : List Char) : Value :=
  if word = "null".toList then .null
  else if word = "true".toList then .boolean true
  else if word = "false".toList then .boolean false
  else if Numeral.isNumber word then .number (String.ofList word)
  else .string (String.ofList word)

/-- The value of a first token and further ones. -/
def tokensValue : Token → List (List Char × Token) → Value
  | .bare word, [] => wordValue word
  | first, more =>
    .string (String.ofList (first.text ++ more.flatMap fun (blanks, t) => blanks ++ t.text))

/-- Reads a scalar, if one begins here. -/
def scalar (s : List Char) : Attempt Value :=
  match token s with
  | .error fault => .error fault
  | .ok none => .ok none
  | .ok (some (first, rest)) =>
    (moreTokens rest).map fun (more, after) => some (tokensValue first more, after)

/-- The text after a scalar is a suffix of the text with it, and shorter. -/
theorem scalar_suffix {s rest : List Char} {v : Value} (h : scalar s = .ok (some (v, rest))) :
    rest <:+ s ∧ rest.length < s.length := by
  unfold scalar at h
  split at h
  · simp at h
  · simp at h
  · rename_i first r ht
    cases hm : moreTokens r with
    | error f => simp [hm, Except.map] at h
    | ok p =>
      simp only [hm, Except.map, Except.ok.injEq, Option.some.injEq, Prod.mk.injEq] at h
      obtain ⟨-, rfl⟩ := h
      have h1 := token_suffix ht
      have h2 := moreTokens_suffix hm
      exact ⟨h2.trans h1.1, Nat.lt_of_le_of_lt h2.length_le h1.2⟩

end LeaderKey.Grammar
