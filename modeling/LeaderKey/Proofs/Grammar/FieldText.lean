import LeaderKey.Proofs.Grammar.NextLine
import LeaderKey.Proofs.Grammar.Written

/-!
# Texts of keys and fields

A key may be written bare or in quotes, and a path as keys with dots between them; `keyPath_dotted`
says that it is read as the path of their names. A field text is read as one field, with nothing
left. It is read as the same field among others: `FieldText.fields_append` says so, wherever the
next element may stand behind it. `FieldText.colon` and `FieldText.braced` are two ways to write
one.
-/

namespace LeaderKey.Grammar

open LeaderKey.Text

/-! ## Keys -/

/-- A key as it is written. -/
inductive KeyText where
  /-- A name without quotes. -/
  | bare (name : List Char) (hne : name ≠ []) (hkey : ∀ c ∈ name, isKeyChar c = true)
    (hslashes : ¬ ['/', '/'] <:+: name)
  /-- A name in quotes; `body` is what stands behind the first one. -/
  | quoted (body name : List Char) (hbody : quotedBody body = .ok (name, []))

namespace KeyText

/-- The text of a key. -/
def text : KeyText → List Char
  | bare name _ _ _ => name
  | quoted body _ _ => '"' :: body

/-- The name that is meant. -/
def name : KeyText → List Char
  | bare name _ _ _ => name
  | quoted _ name _ => name

/-- A key is read as its name. -/
theorem key_text (k : KeyText) : key k.text = .ok (some (k.name, [])) := by
  cases k with
  | bare name hne hkey _ =>
    obtain ⟨c, t, rfl⟩ := List.exists_cons_of_ne_nil hne
    have hquote : (c :: t).head? ≠ some '"' := by
      intro hhead
      have hc := hkey c List.mem_cons_self
      rw [Option.some.inj hhead] at hc
      exact absurd hc (by decide)
    show key (c :: t) = _
    rw [key_of_not_quote hquote, List.takeWhile_eq_self_iff.2 hkey,
      List.dropWhile_eq_nil_iff.2 hkey]
    rfl
  | quoted body name hbody =>
    show (quotedBody body).map some = _
    rw [hbody]
    rfl

/-- A key is read as its name, with another text behind it that does not go on. -/
theorem key_append (k : KeyText) {s : List Char} (hs : s.takeWhile isKeyChar = []) :
    key (k.text ++ s) = .ok (some (k.name, s)) :=
  have halone : key (k.text ++ []) = .ok (some (k.name, [])) := by
    rw [List.append_nil, k.key_text]
  key_replace halone hs

/-- A key begins no comment. -/
theorem not_comment_append (k : KeyText) {s : List Char} (hs : s.head? ≠ some '/') :
    ¬ ['/', '/'] <+: k.text ++ s := by
  cases k with
  | quoted body name hbody =>
    intro hprefix
    exact absurd (List.cons_prefix_cons.1 hprefix).1 (by decide)
  | bare name hne _ hslashes =>
    -- The second slash would be in the name, or right behind a name of one character.
    rintro ⟨t, ht⟩
    match name, hne with
    | [c], _ =>
      obtain rfl : '/' :: t = s := (List.cons.inj ht).2
      exact hs rfl
    | c :: d :: name, _ =>
      cases ht
      exact hslashes ⟨[], name, rfl⟩

end KeyText

/-- Keys with dots between them. -/
def dottedKeys : List KeyText → List Char
  | [] => []
  | k :: more => k.text ++ more.flatMap fun k => '.' :: k.text

/-- The names of keys, which are the path. -/
def keyNames (keys : List KeyText) : List String := keys.map fun k => String.ofList k.name

/-- Neither a dot before further keys nor what ends a path goes on with a key. -/
theorem takeWhile_dotted (keys : List KeyText) {s : List Char}
    (hs : ∀ c, s.head? = some c → isBareChar c = false) :
    ((keys.flatMap fun k => '.' :: k.text) ++ s).takeWhile isKeyChar = [] := by
  cases keys with
  | nil => exact (ends_keyPath hs).1
  | cons k more => exact List.takeWhile_cons_of_neg (by decide)

/-- Keys with dots before them are read one after another. -/
theorem moreKeys_dotted (keys : List KeyText) {s : List Char}
    (hs : ∀ c, s.head? = some c → isBareChar c = false) :
    moreKeys ((keys.flatMap fun k => '.' :: k.text) ++ s) = .ok (keyNames keys, s) := by
  induction keys with
  | nil => exact moreKeys_of_not_dot (ends_keyPath hs).2
  | cons k more ih =>
    rw [List.flatMap_cons, List.append_assoc, List.cons_append]
    exact moreKeys_cons (k.key_append (takeWhile_dotted more hs)) ih

/-- Keys with dots between them are a key path. -/
theorem keyPath_dotted {keys : List KeyText} (h : keys ≠ []) {s : List Char}
    (hs : ∀ c, s.head? = some c → isBareChar c = false) :
    keyPath (dottedKeys keys ++ s) = .ok (some (keyNames keys, s)) := by
  obtain ⟨k, more, rfl⟩ := List.exists_cons_of_ne_nil h
  rw [dottedKeys, List.append_assoc]
  exact keyPath_eq_some (k.key_append (takeWhile_dotted more hs)) (moreKeys_dotted more hs)

/-- Keys with dots between them begin no comment. -/
theorem not_comment_dotted {keys : List KeyText} (h : keys ≠ []) {s : List Char}
    (hs : s.head? ≠ some '/') : ¬ ['/', '/'] <+: dottedKeys keys ++ s := by
  obtain ⟨k, more, rfl⟩ := List.exists_cons_of_ne_nil h
  rw [dottedKeys, List.append_assoc]
  refine k.not_comment_append ?_
  cases more with
  | nil => exact hs
  | cons k more => simp

/-! ## Fields -/

/-- A text that is a field and nothing else, and begins with no comment. -/
structure FieldText where
  /-- The text. -/
  text : List Char
  /-- The field that is read from it. -/
  field : Field
  /-- The field is all of the text. -/
  isRead : Grammar.field text = .ok (field, [])
  /-- The text begins with no comment. -/
  not_comment : ¬ ['/', '/'] <+: text

namespace FieldText

variable (f : FieldText)

/-- A field text is not empty. -/
theorem ne_nil : f.text ≠ [] := (reads_of_field f.isRead).ne_nil_of_field

/-- There is no gap at the front of a field text. -/
theorem afterGap_text : afterGap f.text = f.text := afterGap_of_field f.isRead f.not_comment

/-- A field text begins with a key. -/
theorem head?_ne {d : Char} (hquote : d ≠ '"') (hd : isKeyChar d = false) :
    f.text.head? ≠ some d := by
  obtain ⟨_, _, hpath, _⟩ := field_eq_ok f.isRead
  exact head?_ne_of_keyPath hpath hquote hd

section Behind

variable {s : List Char} (hs : s.head? ≠ some '/')

include hs

/-- A field text with another text behind it has no gap at its front. -/
theorem afterGap_append : afterGap (f.text ++ s) = f.text ++ s := by
  have hself : afterGap (f.text ++ []) = f.text ++ [] := by rw [List.append_nil, f.afterGap_text]
  exact afterGap_append_eq_self f.ne_nil hself fun hhead => absurd hhead hs

/-- A field text with another text behind it begins with a key. -/
theorem head?_afterGap_append {d : Char} (hquote : d ≠ '"') (hd : isKeyChar d = false) :
    (afterGap (f.text ++ s)).head? ≠ some d := by
  rw [f.afterGap_append hs, List.head?_append_of_ne_nil _ f.ne_nil]
  exact f.head?_ne hquote hd

/-- A field text is read where the next element may stand behind it. -/
theorem fields_append {closing : Closing} {next : List Char}
    (hnext : nextElement closing s = some next) :
    fields closing (f.text ++ s) =
      (fields closing next).map fun (fs, after) => (f.field :: fs, after) := by
  have hfield := (reads_of_field f.isRead).before trivial f.afterGap_text hnext hs
  exact fields_cons hfield.isRead hnext

end Behind

/-- Keys with a value behind a colon. -/
def colon {keys : List KeyText} (h : keys ≠ []) {w : List Char} {v : Value}
    (hw : value w = .ok (v, [])) : FieldText where
  text := dottedKeys keys ++ ':' :: ' ' :: w
  field := ⟨keyNames keys, v⟩
  isRead := by
    have hpath := keyPath_dotted h (s := ':' :: ' ' :: w) (by rintro c ⟨⟩; decide)
    have hstart := fieldValue?_colon isInlineBlank_of_mem_space (afterGap_of_value hw)
    exact (Reads.field hpath hstart (reads_of_value hw)).isRead
  not_comment := not_comment_dotted h (by simp)

/-- A field text in braces is an object with that field. -/
theorem reads_object : Reads (.value (.object (Object.ofFields [f.field])))
    ('{' :: ' ' :: (f.text ++ [' ', '}'])) [] := by
  have hlast := (reads_of_field f.isRead).fields_last f.afterGap_text isBlank_of_mem_space
  exact .object (hlast.fields_blanks isBlank_of_mem_space)

/-- Keys with the field in braces behind them. -/
def braced {keys : List KeyText} (h : keys ≠ []) : FieldText where
  text := dottedKeys keys ++ ' ' :: '{' :: ' ' :: (f.text ++ [' ', '}'])
  field := ⟨keyNames keys, .object (Object.ofFields [f.field])⟩
  isRead := by
    have hpath := keyPath_dotted h (s := ' ' :: '{' :: ' ' :: (f.text ++ [' ', '}']))
      (by rintro c ⟨⟩; decide)
    exact (Reads.field hpath (fieldValue?_of_brace rfl) f.reads_object).isRead
  not_comment := not_comment_dotted h (by simp)

end FieldText

end LeaderKey.Grammar
