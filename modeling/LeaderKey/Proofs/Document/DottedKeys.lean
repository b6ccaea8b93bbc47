import LeaderKey.Proofs.Document.AppendField
import LeaderKey.Proofs.Grammar.FieldText

/-!
# Dotted keys

The dots of a key path stand for objects inside objects: `a.b.c: v` is `a { b { c: v } }`, and also
`a.b { c: v }`. `Document.parse_dotted` says that the spellings mean the same at the end of any
config text, whatever it has under these keys already. A dot in quotes belongs to its key.
-/

namespace LeaderKey

/-! ## Nested objects -/

/-- The object that has just one path is the nested value under that path. -/
theorem Object.object_insertPath_nil {path : List String} (h : path ≠ []) (v : Value) :
    .object (insertPath [] path v) = nest path v := by
  cases path with
  | nil => contradiction
  | cons key rest => rfl

/-- The last keys of a path may be nested in the value. -/
theorem Object.insertPath_append (o : Object) {outer : List String} (h : outer ≠ [])
    (inner : List String) (v : Value) :
    o.insertPath (outer ++ inner) v = o.insertPath outer (nest inner v) := by
  cases outer with
  | nil => contradiction
  | cons key rest =>
    show o.insert key (nest (rest ++ inner) v) = o.insert key (nest rest (nest inner v))
    rw [nest, List.foldr_append]
    rfl

namespace Grammar

/-! ## Groups of keys -/

/-- A field with groups of keys around it, each with a brace of its own: `a.b { c { d: v } }`. -/
def nested (outer : List (List KeyText)) (inner : List KeyText) (v : List Char) : List Char :=
  match outer with
  | [] => dottedKeys inner ++ ':' :: ' ' :: v
  | keys :: outer => dottedKeys keys ++ ' ' :: '{' :: ' ' :: (nested outer inner v ++ [' ', '}'])

/-- A field in groups of keys is a field, and inserts what the whole path inserts. -/
theorem exists_fieldText_nested {outer : List (List KeyText)} {inner : List KeyText}
    (houter : ∀ keys ∈ outer, keys ≠ []) (hinner : inner ≠ []) {w : List Char} {v : Value}
    (hw : value w = .ok (v, [])) : ∃ f : FieldText, f.text = nested outer inner w ∧
      ∀ o : Object, o.insertPath f.field.path f.field.value =
        o.insertPath (keyNames (outer.flatten ++ inner)) v := by
  induction outer with
  | nil => exact ⟨.colon hinner hw, rfl, fun o => rfl⟩
  | cons keys outer ih =>
    -- The field inside the braces is the only one of its object, so that object is nested.
    obtain ⟨f, htext, hinsert⟩ := ih fun g hg => houter g (List.mem_cons_of_mem _ hg)
    have hkeys : keys ≠ [] := houter keys List.mem_cons_self
    refine ⟨f.braced hkeys, by rw [nested, ← htext]; rfl, fun o => ?_⟩
    have hnames : keyNames (outer.flatten ++ inner) ≠ [] := by simp [keyNames, hinner]
    calc o.insertPath (keyNames keys) (.object (Object.insertPath [] f.field.path f.field.value))
        = o.insertPath (keyNames keys) (Object.nest (keyNames (outer.flatten ++ inner)) v) := by
          rw [hinsert, Object.object_insertPath_nil hnames]
      _ = o.insertPath (keyNames keys ++ keyNames (outer.flatten ++ inner)) v :=
          (Object.insertPath_append o (by simpa [keyNames] using hkeys) _ v).symm
      _ = o.insertPath (keyNames ((keys :: outer).flatten ++ inner)) v := by simp [keyNames]

end Grammar

open Grammar

namespace Document

/-- A line with a dotted path below a text without braces means what the same keys mean as objects
inside objects, in whatever groups they are taken: the value is inserted under the path of all
their names. -/
theorem parse_dotted {text : String} {d : Document} {keys : List KeyText} {w : List Char}
    {v : Value} (htext : parse text = .ok d) (hbrace : (afterGap text.toList).head? ≠ some '{')
    (hkeys : keys ≠ []) (hw : value w = .ok (v, [])) :
    ∃ appended : Document, appended.root = d.root.insertPath (keyNames keys) v ∧
      parse (text ++ "\n" ++ String.ofList (dottedKeys keys ++ ':' :: ' ' :: w)) = .ok appended ∧
      ∀ outer inner, outer.flatten ++ inner = keys → (∀ group ∈ outer, group ≠ []) → inner ≠ [] →
        parse (text ++ "\n" ++ String.ofList (nested outer inner w)) = .ok appended := by
  have hnested : ∀ outer inner, outer.flatten ++ inner = keys → (∀ group ∈ outer, group ≠ []) →
      inner ≠ [] → parse (text ++ "\n" ++ String.ofList (nested outer inner w)) =
        .ok ⟨d.root.insertPath (keyNames keys) v⟩ := by
    rintro outer inner rfl houter hinner
    obtain ⟨f, hline, hinsert⟩ := exists_fieldText_nested houter hinner hw
    rw [← hline, ← hinsert]
    refine parse_append_line htext hbrace ?_ ?_
    · rw [String.toList_ofList]
      exact f.isRead
    · rw [String.toList_ofList]
      exact f.not_comment
  exact ⟨_, rfl, hnested [] keys rfl (by simp) hkeys, hnested⟩

/-- A key with a dot in quotes, below a text that has an object at the first two keys. -/
theorem parse_dotted_quoted : ∃ appended : Document,
    appended.root = [("a", .object [("b.c", .object [("e", .string "x"), ("d", .number "1")])])] ∧
      parse "a.\"b.c\".e: x\na.\"b.c\".d: 1" = .ok appended ∧
      parse "a.\"b.c\".e: x\na \x7b \"b.c\".d: 1 \x7d" = .ok appended ∧
      parse "a.\"b.c\".e: x\na \x7b \"b.c\" \x7b d: 1 \x7d \x7d" = .ok appended := by
  have htext : parse "a.\"b.c\".e: x" =
      .ok ⟨[("a", .object [("b.c", .object [("e", .string "x")])])]⟩ := by
    decide +kernel
  have hw : value "1".toList = .ok (.number "1", []) := by decide +kernel
  let a : KeyText := .bare ['a'] (by decide) (List.all_eq_true.1 rfl) (by decide)
  let bc : KeyText := .quoted "b.c\"".toList "b.c".toList (by decide +kernel)
  let d : KeyText := .bare ['d'] (by decide) (List.all_eq_true.1 rfl) (by decide)
  have hkeys : [a, bc, d] ≠ [] := List.cons_ne_nil _ _
  obtain ⟨appended, hroot, hdotted, hnested⟩ := parse_dotted htext (by decide) hkeys hw
  refine ⟨appended, hroot.trans (by decide +kernel), hdotted, ?_, ?_⟩
  · exact hnested [[a]] [bc, d] rfl (by simp) (by simp)
  · exact hnested [[a], [bc]] [d] rfl (by simp) (by simp)

end Document

end LeaderKey
