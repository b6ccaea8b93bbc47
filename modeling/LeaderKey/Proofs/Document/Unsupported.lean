import LeaderKey.Proofs.Grammar.Keyed
import LeaderKey.Proofs.Grammar.Parts

/-!
# Constructs that config texts do not have

Substitutions, `+=` and the other constructs of richer config languages are made with characters
that no config text has outside of quotes and comments. `Document.parse_unsupported` says that a
text with one of them is refused, wherever it stands. What is outside is decided by a scan that does
not know the grammar, and in one place the scan takes more for a comment than the readers do: two
slashes within a bare key. So slashes must stand apart, and the text after the theorem shows what
happens to one where they do not.
-/

namespace LeaderKey

namespace Grammar

/-- A text in which slashes stand apart is only read if no unsupported character stands outside of
quotes and comments. -/
theorem supported_document {s : List Char} {fs : List Field} (h : document s = .ok fs)
    (hapart : SlashesApart (parts .plain s)) : Supported .plain s [] := by
  by_cases hbrace : (afterGap s).head? = some '{'
  · obtain ⟨rest, hrest⟩ := List.head?_eq_some_iff.1 hbrace
    obtain ⟨after, hfields, hafter⟩ := document_of_brace_eq_ok hrest h
    have hopen : Supported .plain s rest := by
      have hgap := supported_afterGap s
      rw [hrest] at hgap
      exact hgap.trans (.solid (by decide) rest)
    have hclose := supported_afterGap after
    rw [hafter] at hclose
    exact (hopen.trans (hfields.supported (hapart.behind hopen) nofun)).trans hclose
  · exact ((document_of_not_brace_iff hbrace).1 h).supported hapart nofun

end Grammar

open Grammar

namespace Document

/-- A text with an unsupported character outside of quotes and comments is refused, if two slashes
begin a comment only at the front of it or after a blank. -/
theorem parse_unsupported {text : String} {c : Char}
    (hapart : SlashesApart (parts .plain text.toList)) (hc : c ∈ unsupported)
    (hbare : (c, Part.bare) ∈ parts .plain text.toList) : ∃ e, parse text = .error e := by
  unfold parse
  cases hdocument : document text.toList with
  | error fault => exact ⟨_, rfl⟩
  | ok fs =>
    obtain ⟨front, hparts, hfront⟩ := supported_document hdocument hapart
    rw [hparts] at hbare
    exact absurd ((List.append_nil front).symm ▸ hbare) (hfront c hc)

/-- A text with dollar signs in a comment, in quotes, and as a substitution in a list. -/
def substitution : String :=
  "# costs $\na: \"$b\" // $\nc \x7b d = [1, \"\"\"$\"\"\", $\x7ba\x7d] \x7d"

/-- The substitution is refused. -/
theorem parse_unsupported_substitution :
    SlashesApart (parts .plain substitution.toList) ∧
      ('$', Part.bare) ∈ parts .plain substitution.toList ∧
      ∃ e, parse substitution = .error e := by
  have hapart : SlashesApart (parts .plain substitution.toList) := by decide +kernel
  have hbare : ('$', Part.bare) ∈ parts .plain substitution.toList := by decide +kernel
  exact ⟨hapart, hbare, parse_unsupported hapart (by decide) hbare⟩

/-- Slashes that do not stand apart: the scan has a comment hide the quotes, but they are read. -/
example : ('$', Part.bare) ∈ parts .plain "a//b: \"\"\"\n$\"\"\"".toList ∧
    parse "a//b: \"\"\"\n$\"\"\"" = .ok ⟨[("a//b", .string "\n$")]⟩ := by
  decide +kernel

end Document

end LeaderKey
