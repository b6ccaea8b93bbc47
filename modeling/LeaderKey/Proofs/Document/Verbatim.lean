import LeaderKey.Proofs.Document.Separators
import LeaderKey.Proofs.Grammar.QuotedText
import LeaderKey.Value.Access

/-!
# Values are read verbatim

A value that is no object and no list is written as words and texts in quotes, with blanks between
them, and ends with its line, with a comma, with a comment or with the bracket around it.
`Document.parse_verbatim` says what it means: a word alone may be `null`, a truth value or a number,
and everything else is the text of its pieces with the blanks between them, character for character.
A number keeps its spelling.
-/

namespace LeaderKey

namespace Grammar

open LeaderKey.Text

/-! ## Pieces of a value -/

/-- A piece of a value as it is written. -/
inductive Piece where
  /-- A word without quotes. -/
  | bare (word : List Char) (hne : word ≠ []) (hbare : ∀ c ∈ word, isBareChar c = true)
    (hslashes : ¬ ['/', '/'] <:+: word)
  /-- A text in quotes; `body` is what stands behind the first one. -/
  | quoted (body text : List Char) (hbody : quotedBody body = .ok (text, []))
  /-- A text in triple quotes. -/
  | triple (text : List Char) (hquotes : ¬ ['"', '"', '"'] <:+: text)
    (hlast : text.getLast? ≠ some '"')

namespace Piece

/-- The text of a piece. -/
def text : Piece → List Char
  | bare word _ _ _ => word
  | quoted body _ _ => '"' :: body
  | triple text _ _ => '"' :: '"' :: '"' :: (text ++ ['"', '"', '"'])

/-- What a piece stands for. -/
def token : Piece → Token
  | bare word _ _ _ => .bare word
  | quoted _ text _ => .quoted text
  | triple text _ _ => .quoted text

end Piece

/-- A word without comment marks in it is all of one bare word. -/
theorem bareWord_eq_self {word : List Char} (hbare : ∀ c ∈ word, isBareChar c = true)
    (hslashes : ¬ ['/', '/'] <:+: word) : bareWord word = (word, []) := by
  induction word with
  | nil => rfl
  | cons c word ih =>
    rw [List.infix_cons_iff, not_or] at hslashes
    have hc : isBareChar c = true := hbare c List.mem_cons_self
    have hstart : startsComment (c :: word) = false := by
      have hhash : c ≠ '#' := by
        rintro rfl
        exact absurd hc (by decide)
      rw [startsComment_cons, beq_false_of_ne hhash, Bool.false_or, Bool.and_eq_false_imp]
      intro hslash
      rw [beq_eq_false_iff_ne]
      intro hhead
      obtain ⟨t, rfl⟩ := List.head?_eq_some_iff.1 hhead
      rw [eq_of_beq hslash] at hslashes
      exact hslashes.1 ⟨t, rfl⟩
    rw [bareWord, hc, hstart, ih (fun d hd => hbare d (List.mem_cons_of_mem _ hd)) hslashes.2]
    rfl

/-- Two more quotes behind a text make no triple quote, unless the text has one or ends in a quote.
-/
theorem not_infix_append_quotes {text : List Char} (hquotes : ¬ ['"', '"', '"'] <:+: text)
    (hlast : text.getLast? ≠ some '"') : ¬ ['"', '"', '"'] <:+: text ++ ['"', '"'] := by
  -- A triple quote that takes one of the two quotes takes the last character of the text, too.
  have hends (front : List Char) : text ≠ front ++ ['"'] := by
    rintro rfl
    exact hlast List.getLast?_concat
  have hone : ¬ ['"', '"', '"'] <:+: text ++ ['"'] := by
    rw [List.infix_concat_iff, not_or]
    refine ⟨?_, hquotes⟩
    rintro ⟨front, hfront⟩
    have hsame : text ++ ['"'] = front ++ ['"'] ++ ['"'] ++ ['"'] := by simp [← hfront]
    exact hends (front ++ ['"']) (List.append_cancel_right hsame)
  have htwo : text ++ ['"', '"'] = text ++ ['"'] ++ ['"'] := by simp
  rw [htwo, List.infix_concat_iff, not_or]
  refine ⟨?_, hone⟩
  rintro ⟨front, hfront⟩
  have hsame : text ++ ['"', '"'] = front ++ ['"'] ++ ['"', '"'] := by simp [htwo, ← hfront]
  exact hends front (List.append_cancel_right hsame)

/-- A piece is read as its token. -/
theorem Piece.token_text (p : Piece) : Grammar.token p.text = .ok (some (p.token, [])) := by
  cases p with
  | bare word hne hbare hslashes =>
    have hquote : word.head? ≠ some '"' := by
      intro hhead
      obtain ⟨t, rfl⟩ := List.head?_eq_some_iff.1 hhead
      exact absurd (hbare _ List.mem_cons_self) (by decide)
    obtain ⟨c, t, rfl⟩ := List.exists_cons_of_ne_nil hne
    show Grammar.token (c :: t) = _
    rw [token_of_not_quote hquote, bareWord_eq_self hbare hslashes]
    rfl
  | quoted body text hbody => exact token_quoted hbody
  | triple text hquotes hlast =>
    have hread : tripleBody (text ++ ['"', '"', '"']) = some (text, []) :=
      tripleBody_eq_some_iff.2 ⟨rfl, not_infix_append_quotes hquotes hlast⟩
    show Grammar.token ('"' :: '"' :: '"' :: (text ++ ['"', '"', '"'])) = _
    rw [Grammar.token, hread]
    rfl

/-- A piece begins with no blank. -/
theorem Piece.exists_cons (p : Piece) : ∃ c t, p.text = c :: t ∧ isInlineBlank c = false := by
  cases p with
  | bare word hne hbare _ =>
    obtain ⟨c, t, rfl⟩ := List.exists_cons_of_ne_nil hne
    refine ⟨c, t, rfl, ?_⟩
    by_contra hblank
    rw [Bool.not_eq_false] at hblank
    have hstop := not_isBareChar_of_isBlank (isBlank_of_isInlineBlank hblank)
    rw [hbare c List.mem_cons_self] at hstop
    cases hstop
  | quoted body text hbody => exact ⟨_, _, rfl, by decide⟩
  | triple text hquotes hlast => exact ⟨_, _, rfl, by decide⟩

/-- Nothing of a piece goes on here. -/
def Stops (s : List Char) : Prop := ∀ c, s.head? = some c → isBareChar c = false ∧ c ≠ '"'

/-- A piece is read as its token wherever it stops. -/
theorem Piece.token_append (p : Piece) {s : List Char} (hs : Stops s) :
    Grammar.token (p.text ++ s) = .ok (some (p.token, s)) := by
  have halone : Grammar.token (p.text ++ []) = .ok (some (p.token, [])) := by
    rw [List.append_nil, p.token_text]
  refine token_replace halone ?_ ?_ ?_
  · intro hhead
    exact absurd rfl (hs _ hhead).2
  · intro _
    cases s with
    | nil => rfl
    | cons c t => rw [bareWord_eq_nil (hs c rfl).1]
  · intro hhead
    exact absurd (hs _ hhead).1 (by decide)

/-- A piece stops before blanks. -/
theorem stops_blanks {b s : List Char} (hb : ∀ c ∈ b, isInlineBlank c = true)
    (hs : b = [] → Stops s) : Stops (b ++ s) := by
  cases b with
  | nil => exact hs rfl
  | cons d b =>
    intro c hc
    obtain rfl : d = c := Option.some.inj hc
    have hblank := isBlank_of_isInlineBlank (hb d List.mem_cons_self)
    refine ⟨not_isBareChar_of_isBlank hblank, ?_⟩
    rintro rfl
    cases hblank

/-! ## Pieces in a line -/

/-- A piece behind blanks. -/
structure SpacedPiece where
  /-- The blanks. -/
  blanks : List Char
  /-- There is at least one blank. -/
  ne_nil : blanks ≠ []
  /-- The blanks do not leave the line. -/
  inline : ∀ c ∈ blanks, isInlineBlank c = true
  /-- The piece. -/
  piece : Piece

/-- A value in pieces. -/
structure PiecesText where
  /-- The first piece. -/
  first : Piece
  /-- The other pieces. -/
  more : List SpacedPiece

/-- Pieces with the blanks before them. -/
def spacedText (more : List SpacedPiece) : List Char :=
  more.flatMap fun p => p.blanks ++ p.piece.text

/-- The text of a value in pieces. -/
def PiecesText.text (p : PiecesText) : List Char := p.first.text ++ spacedText p.more

/-- What a value in pieces stands for: its pieces decoded, and the blanks between them. -/
def PiecesText.decoded (p : PiecesText) : List Char :=
  p.first.token.text ++ p.more.flatMap fun q => q.blanks ++ q.piece.token.text

/-- What may stand behind a value and blanks: nothing, or a character that ends the value. -/
def Follows (s : List Char) : Prop := ∀ c, s.head? = some c → c ∈ ['\n', ',', '#', '}', ']']

/-- What follows a value is neither a piece nor a blank. -/
theorem Follows.stops {s : List Char} (h : Follows s) :
    Stops s ∧ afterBlanks s = s ∧ token s = .ok none := by
  cases s with
  | nil => exact ⟨nofun, rfl, rfl⟩
  | cons c t =>
    have hc := h c rfl
    simp only [List.mem_cons, List.not_mem_nil, or_false] at hc
    obtain ⟨hbare, hquote, hblank⟩ :
        isBareChar c = false ∧ c ≠ '"' ∧ isInlineBlank c = false := by
      rcases hc with rfl | rfl | rfl | rfl | rfl
      all_goals decide
    refine ⟨?_, List.dropWhile_cons_of_neg (by simp [hblank]), token_eq_none hquote hbare t⟩
    rintro d ⟨⟩
    exact ⟨hbare, hquote⟩

section Line

variable {blanks follow : List Char} (hblanks : ∀ c ∈ blanks, isInlineBlank c = true)
  (hfollow : Follows follow)

include hblanks hfollow

/-- A piece stops before further pieces, and before what follows the value. -/
theorem stops_spacedText (more : List SpacedPiece) :
    Stops (spacedText more ++ (blanks ++ follow)) := by
  cases more with
  | nil =>
    show Stops (blanks ++ follow)
    exact stops_blanks hblanks fun _ => hfollow.stops.1
  | cons p more =>
    rw [spacedText, List.flatMap_cons, List.append_assoc, List.append_assoc]
    exact stops_blanks p.inline fun hnil => absurd hnil p.ne_nil

/-- Pieces behind blanks are read one after another, each with its blanks. -/
theorem moreTokens_spacedText (more : List SpacedPiece) :
    moreTokens (spacedText more ++ (blanks ++ follow)) =
      .ok (more.map fun p => (p.blanks, p.piece.token), blanks ++ follow) := by
  induction more with
  | nil =>
    obtain ⟨_, hself, hnone⟩ := hfollow.stops
    show moreTokens (blanks ++ follow) = _
    rw [moreTokens_eq, afterBlanks_append_blanks hblanks, hself, hnone]
    rfl
  | cons p more ih =>
    -- The piece begins behind its blanks, and stops before whatever is read in the induction.
    obtain ⟨c, t, hpiece, hc⟩ := p.piece.exists_cons
    have hstops := stops_spacedText hblanks hfollow more
    have hassoc : spacedText (p :: more) ++ (blanks ++ follow) =
        p.blanks ++ (p.piece.text ++ (spacedText more ++ (blanks ++ follow))) := by
      simp [spacedText]
    generalize spacedText more ++ (blanks ++ follow) = rest at ih hstops hassoc
    have hself : afterBlanks (p.piece.text ++ rest) = p.piece.text ++ rest := by
      rw [hpiece]
      exact List.dropWhile_cons_of_neg (by simp [hc])
    have htoken : token (afterBlanks (p.blanks ++ (p.piece.text ++ rest))) =
        .ok (some (p.piece.token, rest)) := by
      rw [afterBlanks_append_blanks p.inline, hself, p.piece.token_append hstops]
    have htake : (p.blanks ++ (p.piece.text ++ rest)).takeWhile isInlineBlank = p.blanks := by
      rw [List.takeWhile_append_of_pos p.inline, hpiece, List.cons_append,
        List.takeWhile_cons_of_neg (by simp [hc]), List.append_nil]
    have hcons := moreTokens_cons htoken ih
    rw [htake] at hcons
    rw [hassoc, hcons]
    rfl

/-- The value of some pieces. -/
theorem reads_pieces (p : PiecesText) :
    Reads (.value (tokensValue p.first.token (p.more.map fun q => (q.blanks, q.piece.token))))
      (p.text ++ (blanks ++ follow)) (blanks ++ follow) := by
  rw [PiecesText.text, List.append_assoc]
  have htoken := p.first.token_append (stops_spacedText hblanks hfollow p.more)
  exact .scalar (scalar_eq_some htoken (moreTokens_spacedText hblanks hfollow p.more))

end Line

/-! ## What pieces mean -/

/-- A word that is a number: at most a minus sign, then a digit, and a numeral as a whole. -/
def IsNumberWord (word : List Char) : Prop :=
  (∃ d t, d.isDigit = true ∧ (word = d :: t ∨ word = '-' :: d :: t)) ∧
    (Numeral.parse? word).isSome = true

/-- What a word means that stands alone. -/
inductive WordMeans : List Char → Value → Prop
  /-- The absent value. -/
  | null : WordMeans "null".toList .null
  /-- A truth value. -/
  | true : WordMeans "true".toList (.boolean true)
  /-- A truth value. -/
  | false : WordMeans "false".toList (.boolean false)
  /-- A number, as it is written. -/
  | number {word : List Char} (h : IsNumberWord word) :
    WordMeans word (.number (String.ofList word))
  /-- Any other word. -/
  | string {word : List Char} (hnull : word ≠ "null".toList) (htrue : word ≠ "true".toList)
    (hfalse : word ≠ "false".toList) (hnumber : ¬ IsNumberWord word) :
    WordMeans word (.string (String.ofList word))

/-- What a value in pieces means. -/
inductive PiecesText.Means (p : PiecesText) : Value → Prop
  /-- A word alone. -/
  | word {word : List Char} {v : Value} (hfirst : p.first.token = .bare word) (hmore : p.more = [])
    (h : WordMeans word v) : p.Means v
  /-- A text in quotes, or more pieces than one. -/
  | text (h : (∀ word, p.first.token ≠ .bare word) ∨ p.more ≠ []) :
    p.Means (.string (String.ofList p.decoded))

/-- The words that are numbers are told by a digit at their front. -/
theorem isNumber_iff {word : List Char} : Numeral.isNumber word = true ↔ IsNumberWord word := by
  unfold Numeral.isNumber IsNumberWord
  rw [Bool.and_eq_true, Option.any_eq_true]
  refine and_congr_left' ?_
  split
  · -- A minus sign is skipped, and is no digit itself.
    rename_i rest
    constructor
    · rintro ⟨d, hhead, hd⟩
      obtain ⟨t, rfl⟩ := List.head?_eq_some_iff.1 hhead
      exact ⟨d, t, hd, Or.inr rfl⟩
    · rintro ⟨d, t, hd, heq | heq⟩
      · cases heq
        cases hd
      · cases heq
        exact ⟨d, rfl, hd⟩
  · rename_i hminus
    constructor
    · rintro ⟨d, hhead, hd⟩
      obtain ⟨t, rfl⟩ := List.head?_eq_some_iff.1 hhead
      exact ⟨d, t, hd, Or.inl rfl⟩
    · rintro ⟨d, t, hd, rfl | rfl⟩
      · exact ⟨d, rfl, hd⟩
      · exact absurd rfl (hminus (d :: t))

/-- A word that stands alone has the value that it means. -/
theorem wordMeans_wordValue (word : List Char) : WordMeans word (wordValue word) := by
  unfold wordValue
  split_ifs with hnull htrue hfalse hnumber
  · rw [hnull]
    exact .null
  · rw [htrue]
    exact .true
  · rw [hfalse]
    exact .false
  · exact .number (isNumber_iff.1 hnumber)
  · exact .string hnull htrue hfalse fun h => hnumber (isNumber_iff.2 h)

/-- Pieces have the value that they mean. -/
theorem means_tokensValue (p : PiecesText) :
    p.Means (tokensValue p.first.token (p.more.map fun q => (q.blanks, q.piece.token))) := by
  generalize hfirst : p.first.token = first
  generalize hmore : p.more.map (fun q => (q.blanks, q.piece.token)) = more
  unfold tokensValue
  split
  · rename_i word
    exact .word hfirst (List.map_eq_nil_iff.1 hmore) (wordMeans_wordValue word)
  · -- No word alone: the first piece is in quotes, or there are more.
    rename_i hnot
    have hdecoded : first.text ++ (more.flatMap fun q => q.1 ++ q.2.text) = p.decoded := by
      rw [PiecesText.decoded, hfirst, ← hmore, List.flatMap_map]
    show p.Means (.string (String.ofList (first.text ++ more.flatMap fun q => q.1 ++ q.2.text)))
    rw [hdecoded]
    refine .text ?_
    by_cases hword : ∃ word, first = .bare word
    · obtain ⟨word, rfl⟩ := hword
      refine Or.inr fun hnil => hnot word rfl ?_
      rw [← hmore, hnil]
      rfl
    · exact Or.inl fun word hbare => hword ⟨word, hfirst.symm.trans hbare⟩

/-- Pieces that mean a number are one word, which spells it. -/
theorem PiecesText.Means.of_number {p : PiecesText} {spelling : String}
    (h : p.Means (.number spelling)) :
    spelling = String.ofList p.text ∧ (Value.binary64? (.number spelling)).isSome = true := by
  cases h with
  | @word word _ hfirst hmore h =>
    cases h with
    | number hnumber =>
      have htext : p.text = word := by
        rw [PiecesText.text, hmore]
        cases hpiece : p.first with
        | bare name _ _ _ =>
          rw [hpiece] at hfirst
          cases hfirst
          exact List.append_nil _
        | quoted _ _ _ =>
          rw [hpiece] at hfirst
          cases hfirst
        | triple _ _ _ =>
          rw [hpiece] at hfirst
          cases hfirst
      refine ⟨by rw [htext], ?_⟩
      rw [Value.binary64?, String.toList_ofList, Option.isSome_map]
      exact hnumber.2

/-! ## Where pieces may stand -/

section Line

variable {blanks : List Char} (hblanks : ∀ c ∈ blanks, isInlineBlank c = true)

include hblanks

/-- Blanks inside a line are blanks. -/
theorem isBlank_of_inline : ∀ c ∈ blanks, isBlank c = true :=
  fun c hc => isBlank_of_isInlineBlank (hblanks c hc)

/-- Behind blanks the text may end, with or without a comma. -/
theorem exists_nextElement_end {tail : List Char}
    (h : afterGap tail = [] ∨ ∃ g, tail = ',' :: g ∧ afterGap g = []) :
    ∃ next, nextElement .endOfText (blanks ++ tail) = some next ∧ afterGap next = [] := by
  have hgap := afterGap_blanks (isBlank_of_inline hblanks) tail
  rcases h with hend | ⟨g, rfl, hend⟩
  · refine ⟨[], ?_, rfl⟩
    rw [hend] at hgap
    rw [nextElement_of_not_comma (by rw [hgap]; nofun), hgap]
    simp [Closing.reached]
  · refine ⟨g, nextElement_of_comma ?_, hend⟩
    rw [hgap]
    exact afterGap_eq_self_iff.2 ⟨by decide, rfl⟩

/-- Fields of an object with one field. -/
theorem reads_object_closed {f : Field} {s rest : List Char}
    (h : Reads (.field f) (afterGap s) (blanks ++ '}' :: rest)) :
    Reads (.value (.object (Object.ofFields [f]))) ('{' :: s) rest := by
  have hnext : nextElement .brace (blanks ++ '}' :: rest) = some ('}' :: rest) :=
    nextElement_blanks (isBlank_of_inline hblanks) rfl
  exact .object (.fieldsCons h hnext (.fieldsEnd rfl))

/-- The item of a list with one item. -/
theorem reads_list_closed {v : Value} {s rest : List Char}
    (h : Reads (.value v) (afterGap s) (blanks ++ ']' :: rest)) :
    Reads (.value (.list [v])) ('[' :: s) rest := by
  have hnext : nextElement .bracket (blanks ++ ']' :: rest) = some (']' :: rest) :=
    nextElement_blanks (isBlank_of_inline hblanks) rfl
  exact .list (.itemsCons h hnext (.itemsEnd rfl))

end Line

/-- A value behind a key and a colon is a field. -/
theorem reads_field_key (k : KeyText) {w rest : List Char} {v : Value}
    (hw : Reads (.value v) w rest) : Reads (.field ⟨[String.ofList k.name], v⟩)
      (k.text ++ ':' :: ' ' :: w) rest := by
  have hkey : key (k.text ++ ':' :: ' ' :: w) = .ok (some (k.name, ':' :: ' ' :: w)) :=
    k.key_append (List.takeWhile_cons_of_neg (by decide))
  have hpath := keyPath_eq_some hkey (moreKeys_of_not_dot (by simp))
  exact .field hpath (fieldValue?_colon isInlineBlank_of_mem_space (afterGap_of_value hw.isRead)) hw

/-- There is no gap before a key. -/
theorem afterGap_key (k : KeyText) {w rest : List Char} {v : Value}
    (hw : Reads (.value v) w rest) :
    afterGap (k.text ++ ':' :: ' ' :: w) = k.text ++ ':' :: ' ' :: w :=
  afterGap_of_field (reads_field_key k hw).isRead (k.not_comment_append (by simp))

end Grammar

open Grammar

/-- What may stand behind the value of the last field of a text: a gap, or a comma and a gap. -/
def EndsText (tail : List Char) : Prop :=
  Follows tail ∧ (afterGap tail = [] ∨ ∃ g, tail = ',' :: g ∧ afterGap g = [])

/-- A text that is read as a certain value wherever it may stand, with blanks behind it. -/
structure ReadsAs (written : List Char) (v : Value) : Prop where
  /-- It is a value that ends with its line, a comma, a comment, a bracket or the text. -/
  value {blanks follow : List Char} (hblanks : ∀ c ∈ blanks, Text.isInlineBlank c = true)
    (hfollow : Follows follow) :
    Grammar.value (written ++ (blanks ++ follow)) = .ok (v, blanks ++ follow)
  /-- Behind a key and a colon, it is the value of that key. -/
  field (k : KeyText) {blanks follow : List Char}
    (hblanks : ∀ c ∈ blanks, Text.isInlineBlank c = true) (hfollow : Follows follow) :
    Grammar.field (k.text ++ ':' :: ' ' :: (written ++ (blanks ++ follow))) =
      .ok (⟨[String.ofList k.name], v⟩, blanks ++ follow)
  /-- In braces, it is the value of its key in an object. -/
  object (k : KeyText) {blanks : List Char} (hblanks : ∀ c ∈ blanks, Text.isInlineBlank c = true)
    (rest : List Char) :
    Grammar.value ('{' :: (k.text ++ ':' :: ' ' :: (written ++ (blanks ++ '}' :: rest)))) =
      .ok (.object [(String.ofList k.name, v)], rest)
  /-- In brackets, it is an item of a list. -/
  list {blanks : List Char} (hblanks : ∀ c ∈ blanks, Text.isInlineBlank c = true)
    (rest : List Char) :
    Grammar.value ('[' :: (written ++ (blanks ++ ']' :: rest))) = .ok (.list [v], rest)
  /-- In a text of its own, it is the value of its key in the document. -/
  document (k : KeyText) {blanks tail : List Char}
    (hblanks : ∀ c ∈ blanks, Text.isInlineBlank c = true) (htail : EndsText tail) :
    Document.parse (String.ofList (k.text ++ ':' :: ' ' :: (written ++ (blanks ++ tail)))) =
      .ok ⟨[(String.ofList k.name, v)]⟩

/-- A value that is read wherever it ends is read wherever it may stand. -/
theorem readsAs_of_reads {written : List Char} {v : Value}
    (h : ∀ {blanks follow : List Char}, (∀ c ∈ blanks, Text.isInlineBlank c = true) →
      Follows follow → Reads (.value v) (written ++ (blanks ++ follow)) (blanks ++ follow)) :
    ReadsAs written v where
  value hblanks hfollow := (h hblanks hfollow).isRead
  field k {blanks follow} hblanks hfollow := (reads_field_key k (h hblanks hfollow)).isRead
  object k {blanks} hblanks rest := by
    have hfollow : Follows ('}' :: rest) := by
      rintro c ⟨⟩
      decide
    have hw := h hblanks hfollow
    refine (reads_object_closed hblanks (f := ⟨[String.ofList k.name], v⟩) ?_).isRead
    rw [afterGap_key k hw]
    exact reads_field_key k hw
  list hblanks rest := by
    have hfollow : Follows (']' :: rest) := by
      rintro c ⟨⟩
      decide
    have hw := h hblanks hfollow
    refine (reads_list_closed hblanks ?_).isRead
    rw [afterGap_of_value hw.isRead]
    exact hw
  document k {blanks tail} hblanks htail := by
    have hw := h hblanks htail.1
    obtain ⟨next, hnext, hgap⟩ := exists_nextElement_end hblanks htail.2
    have hfields : Reads (.fields .endOfText [⟨[String.ofList k.name], v⟩])
        (k.text ++ ':' :: ' ' :: (written ++ (blanks ++ tail))) [] := by
      refine .fieldsCons ?_ hnext (reads_fields_text hgap)
      rw [afterGap_key k hw]
      exact reads_field_key k hw
    have hbrace := hfields.head?_ne_of_fields (d := '{') (by decide) (by decide) (fun _ => nofun)
    exact Document.parse_of_document ((document_of_not_brace_iff hbrace).2 hfields)

namespace Document

/-- A number that is found is read as it is spelled. -/
theorem getText_of_number {d : Document} {path spelling : String}
    (h : d.lookup path = some (.number spelling)) : d.getText path = .ok spelling := by
  unfold getText Value.requireText
  rw [h]
  rfl

/-- Pieces with blanks between them are read as what they mean, wherever a value may stand. If they
mean a number, it denotes one, it is spelled as it is written, and that is the text that is found
at its path. -/
theorem parse_verbatim (p : PiecesText) : ∃ v, p.Means v ∧ ReadsAs p.text v ∧
    ∀ spelling, v = .number spelling → spelling = String.ofList p.text ∧
      v.binary64?.isSome = true ∧
      ∀ (d : Document) path, d.lookup path = some v → d.getText path = .ok spelling := by
  have hmeans := means_tokensValue p
  refine ⟨_, hmeans, readsAs_of_reads fun hblanks hfollow => reads_pieces hblanks hfollow p, ?_⟩
  intro spelling hv
  rw [hv] at hmeans ⊢
  obtain ⟨hspelling, hdouble⟩ := hmeans.of_number
  exact ⟨hspelling, hdouble, fun d path hpath => getText_of_number hpath⟩

/-- Digits beside other pieces are no number, blanks and quotes inside triple quotes are kept, and a
number alone keeps its zeros. -/
theorem parse_verbatim_mixed :
    parse "k: 007  \"x y\"\t\"\"\"a\"b\"\"\"  # end" =
        .ok ⟨[("k", .string "007  x y\ta\"b")]⟩ ∧
      ∃ v, parse "k: -01.50" = .ok ⟨[("k", v)]⟩ ∧ WordMeans "-01.50".toList v := by
  let k : KeyText := .bare ['k'] (by decide) (List.all_eq_true.1 rfl) (by decide)
  let seven : Piece := .bare "007".toList (by decide) (List.all_eq_true.1 rfl) (by decide)
  let quoted : Piece := .quoted "x y\"".toList "x y".toList (by decide +kernel)
  let triple : Piece := .triple "a\"b".toList (by decide) (by decide)
  let number : Piece := .bare "-01.50".toList (by decide) (List.all_eq_true.1 rfl) (by decide)
  constructor
  · let second : SpacedPiece := ⟨"  ".toList, by decide, List.all_eq_true.1 rfl, quoted⟩
    let third : SpacedPiece := ⟨"\t".toList, by decide, List.all_eq_true.1 rfl, triple⟩
    let p : PiecesText := ⟨seven, [second, third]⟩
    have htext :
        String.ofList (k.text ++ ':' :: ' ' :: (p.text ++ ("  ".toList ++ "# end".toList))) =
          "k: 007  \"x y\"\t\"\"\"a\"b\"\"\"  # end" := by
      decide +kernel
    have hdecoded : String.ofList p.decoded = "007  x y\ta\"b" := by decide +kernel
    have htail : EndsText "# end".toList := ⟨by rintro c ⟨⟩; decide, Or.inl (by decide)⟩
    have hblanks : ∀ c ∈ "  ".toList, Text.isInlineBlank c = true := List.all_eq_true.1 rfl
    obtain ⟨v, hmeans, hreads, _⟩ := parse_verbatim p
    cases hmeans with
    | word _ hmore _ => cases hmore
    | text _ =>
      have hparse := hreads.document k hblanks htail
      rwa [htext, hdecoded] at hparse
  · let p : PiecesText := ⟨number, []⟩
    have htext : String.ofList (k.text ++ ':' :: ' ' :: (p.text ++ ([] ++ []))) = "k: -01.50" := by
      decide +kernel
    have htail : EndsText [] := ⟨nofun, Or.inl rfl⟩
    obtain ⟨v, hmeans, hreads, _⟩ := parse_verbatim p
    have hparse := hreads.document k (List.forall_mem_nil _) htail
    rw [htext] at hparse
    refine ⟨v, hparse, ?_⟩
    cases hmeans with
    | word hfirst _ h =>
      cases hfirst
      exact h
    | text h =>
      rcases h with hquoted | hmore
      · exact absurd rfl (hquoted _)
      · exact absurd rfl hmore

end Document

end LeaderKey
