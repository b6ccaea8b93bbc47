import LeaderKey.Proofs.Grammar.Comments.Phrase
import LeaderKey.Proofs.Grammar.Keyed

/-!
# Config texts without their comments

A comment stands for nothing, wherever it is: `Document.parse_withoutComments` says that a text and
the text without its comments describe the same object, or are both refused. There is one exception,
and it is no comment to the readers: two slashes within a bare key are part of the key, though the
scan for comments has them begin one. Such a key is lost with its comment, so the text without
comments is always refused then; `Document.parse_slashes_in_key` is a text of this kind.
-/

namespace LeaderKey

namespace Grammar

/-- The text is read up to a field whose name is written like this. -/
def HasName (s name : List Char) : Prop :=
  match afterGap s with
  | '{' :: rest => NameIn name (.fields .brace) rest
  | _ => NameIn name (.fields .endOfText) s

/-- A name in a text with braces around it. -/
theorem hasName_of_brace {s rest : List Char} (h : afterGap s = '{' :: rest) (name : List Char) :
    HasName s name ↔ NameIn name (.fields .brace) rest := by
  rw [HasName, h]
  exact Iff.rfl

/-- A name in a text without braces around it. -/
theorem hasName_of_not_brace {s : List Char} (h : (afterGap s).head? ≠ some '{')
    (name : List Char) : HasName s name ↔ NameIn name (.fields .endOfText) s := by
  unfold HasName
  split
  · rename_i heq
    rw [heq] at h
    exact absurd rfl h
  · exact Iff.rfl

/-- Nothing is behind a gap exactly if nothing is there without comments. -/
theorem afterGap_strip_eq_nil {s : List Char} :
    afterGap (strip .plain s) = [] ↔ afterGap s = [] := by
  have hhead := head?_strip (startsComment_of_afterGap (afterGap_afterGap s))
  rw [afterGap_strip, ← List.head?_eq_none_iff, hhead, List.head?_eq_none_iff]

/-- A text with braces around it. -/
theorem document_strip_of_brace {s rest : List Char} (h : afterGap s = '{' :: rest)
    (fs : List Field) : document (strip .plain s) = .ok fs ↔
      document s = .ok fs ∧ ∀ name, HasName s name → strip .plain name = name := by
  have hstrip : afterGap (strip .plain s) = '{' :: strip .plain rest := by
    rw [afterGap_strip, h, strip_solid (by decide) (by decide) (by decide)]
  simp only [hasName_of_brace h]
  constructor
  · intro hread
    obtain ⟨r, hfields, hr⟩ := document_of_brace_eq_ok hstrip hread
    obtain ⟨after, rfl, hfields, hnames⟩ := hfields.of_stripped
    exact ⟨document_of_brace h hfields (afterGap_strip_eq_nil.1 hr), hnames⟩
  · rintro ⟨hread, hnames⟩
    obtain ⟨after, hfields, hafter⟩ := document_of_brace_eq_ok h hread
    exact document_of_brace hstrip (hfields.stripped hnames) (afterGap_strip_eq_nil.2 hafter)

/-- A text without braces around it. -/
theorem document_strip_of_not_brace {s : List Char} (h : (afterGap s).head? ≠ some '{')
    (fs : List Field) : document (strip .plain s) = .ok fs ↔
      document s = .ok fs ∧ ∀ name, HasName s name → strip .plain name = name := by
  have hstrip : (afterGap (strip .plain s)).head? ≠ some '{' := by
    rw [afterGap_strip]
    exact fun hhead => h ((head?_strip_eq_some (by decide)).1 hhead).1
  simp only [hasName_of_not_brace h, document_of_not_brace_iff h,
    document_of_not_brace_iff hstrip]
  constructor
  · intro hread
    obtain ⟨after, -, hfields, hnames⟩ := hread.of_stripped
    obtain rfl := hfields.eq_nil_of_endOfText
    exact ⟨hfields, hnames⟩
  · rintro ⟨hfields, hnames⟩
    exact hfields.stripped hnames

/-- What is read from a text without comments. -/
theorem document_strip (s : List Char) (fs : List Field) :
    document (strip .plain s) = .ok fs ↔
      document s = .ok fs ∧ ∀ name, HasName s name → strip .plain name = name := by
  by_cases hbrace : (afterGap s).head? = some '{'
  · obtain ⟨rest, hrest⟩ := List.head?_eq_some_iff.1 hbrace
    exact document_strip_of_brace hrest fs
  · exact document_strip_of_not_brace hbrace fs

/-- A bare word that is read holds no comment mark. -/
theorem strip_of_token {s word rest : List Char} (h : token s = .ok (some (.bare word, rest))) :
    strip .plain word = word := by
  unfold token at h
  split at h
  · split at h <;> cases h
  · obtain ⟨_, _, heq⟩ := of_map_eq_ok h
    cases heq
  · split at h
    · cases h
    · rename_i hword
      cases h
      have hself := strip_bareWord s
      rwa [hword] at hself

end Grammar

open Grammar

namespace Document

/-- A text without its comments. -/
def withoutComments (text : String) : String := String.ofList (strip .plain text.toList)

/-- A text without its comments describes an object exactly if the text describes this object and
none of the names of its fields holds a comment mark outside of quotes. No bare word ever holds one.
-/
theorem parse_withoutComments (text : String) :
    (∀ d, parse (withoutComments text) = .ok d ↔
      parse text = .ok d ∧ ∀ name, HasName text.toList name → strip .plain name = name) ∧
    ∀ s word rest, token s = .ok (some (.bare word, rest)) → strip .plain word = word := by
  refine ⟨fun d => ?_, fun s word rest => strip_of_token⟩
  rw [parse_eq_ok_iff, parse_eq_ok_iff, withoutComments, String.toList_ofList]
  simp only [document_strip]
  constructor
  · rintro ⟨fs, ⟨hread, hnames⟩, hd⟩
    exact ⟨⟨fs, hread, hd⟩, hnames⟩
  · rintro ⟨⟨fs, hread, hd⟩, hnames⟩
    exact ⟨fs, ⟨hread, hnames⟩, hd⟩

/-- Comment marks in quotes and in triple quotes stay. -/
example : withoutComments "a: \"b # c\" // d\n\"e//f\": \"\"\"#\"\"\" # g" =
    "a: \"b # c\" \n\"e//f\": \"\"\"#\"\"\" " := by
  decide +kernel

/-- Two slashes in a bare key: the key is taken with them, and the text without its comments is
refused. -/
theorem parse_slashes_in_key :
    parse "a//b: 1" = .ok ⟨[("a//b", .number "1")]⟩ ∧ withoutComments "a//b: 1" = "a" ∧
      parse "a" = .error ⟨⟨1, 2⟩, .expectedSeparator⟩ := by
  refine ⟨by decide +kernel, by decide +kernel, by decide +kernel⟩

end Document

end LeaderKey
