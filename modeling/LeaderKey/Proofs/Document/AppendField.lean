import LeaderKey.Proofs.Grammar.Keyed
import LeaderKey.Proofs.Grammar.NextLine
import LeaderKey.Proofs.Value.Merge

/-!
# A line appended to a config text

A user who appends a line to a config text without braces around it means one more definition, and
nothing of what stands above changes that: neither a comment or a comma at its end, nor a missing
new line. `Document.parse_append_field` says that the text then describes the object it described
before, with the value of the line inserted under its path.
-/

namespace LeaderKey

namespace Grammar

/-- A key path has at least one key. -/
theorem ne_nil_of_keyPath {s rest : List Char} {path : List String}
    (h : keyPath s = .ok (some (path, rest))) : path ≠ [] := by
  unfold keyPath at h
  split at h
  · cases h
  · cases h
  · obtain ⟨⟨names, after⟩, _, heq⟩ := of_map_eq_ok h
    cases heq
    exact List.cons_ne_nil _ _

/-- What a text without braces begins with, behind the gap, when a field is put below it. -/
theorem head?_afterGap_append {s line : List Char} {f : Field}
    (h : (afterGap s).head? ≠ some '{') (hline : Grammar.field line = .ok (f, []))
    (hcomment : ¬ ['/', '/'] <+: line) : (afterGap (s ++ '\n' :: line)).head? ≠ some '{' := by
  by_cases hgap : afterGap s = []
  · obtain ⟨_, _, hpath, _⟩ := field_eq_ok hline
    rw [afterGap_append_of_nil line hgap, afterGap_of_field hline hcomment]
    exact head?_ne_of_keyPath hpath (by decide) (by decide)
  · rw [afterGap_append line hgap, List.head?_append_of_ne_nil _ hgap]
    exact h

/-- A field on a line of its own below a text without braces is read after the fields above. -/
theorem document_append_field {s line : List Char} {fs : List Field} {f : Field}
    (h : document s = .ok fs) (hbrace : (afterGap s).head? ≠ some '{')
    (hline : Grammar.field line = .ok (f, [])) (hcomment : ¬ ['/', '/'] <+: line) :
    document (s ++ '\n' :: line) = .ok (fs ++ [f]) := by
  rw [document_of_not_brace hbrace] at h
  obtain ⟨⟨fs', after⟩, hfields, rfl⟩ := of_map_eq_ok h
  have hreads : Reads (.fields .endOfText (fs' ++ [f])) (s ++ '\n' :: line) [] :=
    (reads_of_fields hfields).append_field hline hcomment
  have hall : fields .endOfText (s ++ '\n' :: line) = .ok (fs' ++ [f], []) := hreads.isRead
  rw [document_of_not_brace (head?_afterGap_append hbrace hline hcomment), hall]
  rfl

end Grammar

/-- One more field is inserted last. -/
theorem Object.ofFields_concat (fs : List Field) (f : Field) :
    Object.ofFields (fs ++ [f]) = (Object.ofFields fs).insertPath f.path f.value := by
  unfold Object.ofFields
  rw [List.foldl_append]
  rfl

namespace Document

/-- A field on a line of its own below a text without braces is inserted last. -/
theorem parse_append_line {text line : String} {d : Document} {f : Field}
    (htext : parse text = .ok d) (hbrace : (Grammar.afterGap text.toList).head? ≠ some '{')
    (hline : Grammar.field line.toList = .ok (f, [])) (hcomment : ¬ ['/', '/'] <+: line.toList) :
    parse (text ++ "\n" ++ line) = .ok ⟨d.root.insertPath f.path f.value⟩ := by
  obtain ⟨fs, hfs, rfl⟩ := parse_eq_ok_iff.1 htext
  have happend : (text ++ "\n" ++ line).toList = text.toList ++ '\n' :: line.toList := by
    simp
  refine parse_eq_ok_iff.2 ⟨fs ++ [f], ?_, by rw [Object.ofFields_concat]⟩
  rw [happend]
  exact Grammar.document_append_field hfs hbrace hline hcomment

/-- A field on a line of its own, put below a text that has no braces around it, is inserted into
the object that the text describes, and nothing else changes. So a value other than an object is
found under its path, whatever was there before, and every path keeps its value that neither begins
nor extends this one. -/
theorem parse_append_field {text line : String} {d : Document} {path : List String} {v : Value}
    (htext : parse text = .ok d) (hbrace : (Grammar.afterGap text.toList).head? ≠ some '{')
    (hline : Grammar.field line.toList = .ok (⟨path, v⟩, []))
    (hcomment : ¬ ['/', '/'] <+: line.toList) :
    ∃ appended : Document, parse (text ++ "\n" ++ line) = .ok appended ∧
      appended.root = d.root.insertPath path v ∧
      (v.object? = none → appended.root.lookup path = some v) ∧
      ∀ other : List String, ¬ other <+: path → ¬ path <+: other →
        appended.root.lookup other = d.root.lookup other := by
  have hkeyed : v.Keyed := (Grammar.reads_of_field hline).keyed
  have hpath : path ≠ [] := by
    obtain ⟨_, _, hkeys, _⟩ := Grammar.field_eq_ok hline
    exact Grammar.ne_nil_of_keyPath hkeys
  refine ⟨_, parse_append_line htext hbrace hline hcomment, rfl, ?_, ?_⟩
  · intro hscalar
    exact Object.lookup_insertPath_self _ hpath hkeyed hscalar
  · intro other hbegins hextends
    exact Object.lookup_insertPath_of_apart _ hkeyed hbegins hextends

/-- A text that ends in a comma and a comment, and a line that puts a word where it has an object. -/
theorem parse_append_field_override :
    ∃ appended : Document,
      parse ("# keys\na { b = 1 }, c: [2] , // end" ++ "\n" ++ "a.b.d: x y") = .ok appended ∧
      appended.root.lookup ["a", "b", "d"] = some (.string "x y") ∧
      appended.root.lookup ["c"] = some (.list [.number "2"]) := by
  have htext : parse "# keys\na { b = 1 }, c: [2] , // end" =
      .ok ⟨[("a", .object [("b", .number "1")]), ("c", .list [.number "2"])]⟩ := by
    decide +kernel
  have hline : Grammar.field "a.b.d: x y".toList = .ok (⟨["a", "b", "d"], .string "x y"⟩, []) := by
    decide +kernel
  obtain ⟨appended, hparse, _, hself, hother⟩ :=
    parse_append_field htext (by decide) hline (by decide)
  refine ⟨appended, hparse, hself rfl, ?_⟩
  rw [hother ["c"] (by decide) (by decide)]
  rfl

end Document

end LeaderKey
