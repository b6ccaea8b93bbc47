import LeaderKey.Json
import LeaderKey.Proofs.Grammar.Written

/-!
# JSON output is a config text

A config that is written as JSON can be read as a config text: its braces, brackets, quotes, escapes
and numbers mean the same there, and neither layout has a new line where the config grammar would
end something early. `Config.tree` is the object that is read, and `Config.parse_toJson` says that
both layouts give it. Since a config can be told from its tree, it can be told from its JSON text.
-/

namespace LeaderKey

/-! ## Numbers -/

/-- Digits are a number. -/
theorem Numeral.isNumber_of_digits {ds : List Char} (hne : ds ≠ [])
    (h : ∀ c ∈ ds, c.isDigit = true) : isNumber ds = true := by
  obtain ⟨c, t, rfl⟩ := List.exists_cons_of_ne_nil hne
  have hc : c.isDigit = true := h c List.mem_cons_self
  have hminus : c ≠ '-' := by
    rintro rfl
    cases hc
  have hplus : c ≠ '+' := by
    rintro rfl
    cases hc
  have hsign : sign (c :: t) = (false, c :: t) := by
    unfold sign
    split
    · rename_i heq
      exact absurd (List.cons.inj heq).1 hminus
    · rename_i heq
      exact absurd (List.cons.inj heq).1 hplus
    · rfl
  -- All digits are the whole part, and nothing is left for a fraction or an exponent.
  have hdigits : digits (c :: t) = c :: t := List.takeWhile_eq_self_iff.2 h
  have hafter : afterDigits (c :: t) = [] := List.dropWhile_eq_nil_iff.2 h
  have hmagnitude : magnitude? (c :: t) = some (natOf (c :: t), 0) := by
    simp [magnitude?, hdigits, hafter, exponent?]
  have hparse : parse? (c :: t) = some (.finite false (natOf (c :: t)) 0) := by
    unfold parse?
    rw [hsign]
    simp only [hmagnitude]
  unfold isNumber
  split
  · rename_i heq
    exact absurd (List.cons.inj heq).1 hminus
  · rw [hparse]
    simp only [List.head?_cons, Option.any_some, hc, Option.isSome_some, Bool.and_self]

namespace Grammar

open LeaderKey.Text

/-- A digit may stand in a bare word, and begins no comment. -/
theorem isBareChar_of_isDigit {c : Char} (h : c.isDigit = true) :
    isBareChar c = true ∧ c ≠ '/' ∧ c ≠ '#' := by
  have hrange : 48 ≤ c.toNat ∧ c.toNat ≤ 57 := by
    simp only [Char.isDigit, Bool.and_eq_true, decide_eq_true_eq] at h
    exact h
  -- The ten digits, one by one, against the table of blanks and the list of reserved characters.
  have hall : ∀ n ≤ 57, 48 ≤ n →
      isBareChar (Char.ofNat n) = true ∧ Char.ofNat n ≠ '/' ∧ Char.ofNat n ≠ '#' := by decide
  have hc := hall c.toNat hrange.2 hrange.1
  rwa [Char.ofNat_toNat] at hc

/-- Digits are one bare word. -/
theorem bareWord_of_digits {ds : List Char} (h : ∀ c ∈ ds, c.isDigit = true) :
    bareWord ds = (ds, []) := by
  induction ds with
  | nil => rfl
  | cons c ds ih =>
    obtain ⟨hbare, hslash, hhash⟩ := isBareChar_of_isDigit (h c List.mem_cons_self)
    have hcomment : startsComment (c :: ds) = false := by
      rw [startsComment_cons]
      simp [hslash, hhash]
    rw [bareWord, hbare, hcomment, ih fun d hd => h d (List.mem_cons_of_mem _ hd)]
    rfl

/-- The decimal digits of a natural number are read as that number. -/
theorem reads_decimal (n : Nat) : Reads (.value (.number (toString n))) (Nat.toDigits 10 n) [] := by
  have hdigits : ∀ c ∈ Nat.toDigits 10 n, c.isDigit = true := fun c hc =>
    Nat.isDigit_of_mem_toDigits (by decide) (by decide) hc
  have hne : Nat.toDigits 10 n ≠ [] := Nat.toDigits_ne_nil
  have hspelling : toString n = String.ofList (Nat.toDigits 10 n) := rfl
  rw [hspelling]
  generalize Nat.toDigits 10 n = ds at hdigits hne
  obtain ⟨c, t, rfl⟩ := List.exists_cons_of_ne_nil hne
  have hc : c.isDigit = true := hdigits c List.mem_cons_self
  have hquote : (c :: t).head? ≠ some '"' := by
    intro hhead
    obtain rfl : c = '"' := Option.some.inj hhead
    cases hc
  have htoken : token (c :: t) = .ok (some (.bare (c :: t), [])) := by
    rw [token_of_not_quote hquote, bareWord_of_digits hdigits]
  -- No keyword begins with a digit.
  have hkeyword (word : String) (d : Char) (hhead : word.toList.head? = some d)
      (hd : d.isDigit = false) : c :: t ≠ word.toList := by
    intro heq
    rw [← heq] at hhead
    rw [← Option.some.inj hhead, hc] at hd
    cases hd
  have hvalue : wordValue (c :: t) = .number (String.ofList (c :: t)) := by
    unfold wordValue
    rw [if_neg (hkeyword "null" 'n' (by decide) rfl), if_neg (hkeyword "true" 't' (by decide) rfl),
      if_neg (hkeyword "false" 'f' (by decide) rfl),
      if_pos (Numeral.isNumber_of_digits hne hdigits)]
  refine .scalar ((scalar_eq_some htoken moreTokens_nil).trans ?_)
  exact congrArg (fun v => Except.ok (some (v, []))) hvalue

/-! ## Characters in quotes -/

/-- A control character that is written by its code is read back. -/
theorem escape_control {c : Char} (h : c.toNat < 0x20) (rest : List Char) :
    escape ('u' :: '0' :: '0' :: Json.hexDigit (c.toNat / 16) :: Json.hexDigit c.toNat :: rest) =
      .ok (c, rest) := by
  -- Two hexadecimal digits are enough for each of the thirty-two.
  have hall : ∀ n < 0x20, escapedScalar? '0' '0' (Json.hexDigit (n / 16)) (Json.hexDigit n) =
      some (Char.ofNat n) := by decide
  have hscalar := hall c.toNat h
  rw [Char.ofNat_toNat] at hscalar
  simp only [escape, hscalar, if_true]

/-- Every character is read back from what JSON writes for it. -/
theorem quotedBody_escapedJson (c : Char) (rest : List Char) :
    quotedBody (Json.escapedChar c ++ rest) = (quotedBody rest).cons c := by
  unfold Json.escapedChar
  split_ifs with hquote hbackslash hback hfeed hline hreturn htab hcontrol
  · rw [hquote]
    exact quotedBody_escapedChar rfl (by decide) rest
  · rw [hbackslash]
    exact quotedBody_escapedChar rfl (by decide) rest
  · rw [hback]
    exact quotedBody_escapedChar rfl (by decide) rest
  · rw [hfeed]
    exact quotedBody_escapedChar rfl (by decide) rest
  · rw [hline]
    exact quotedBody_escapedChar rfl (by decide) rest
  · rw [hreturn]
    exact quotedBody_escapedChar rfl (by decide) rest
  · rw [htab]
    exact quotedBody_escapedChar rfl (by decide) rest
  · refine (quotedBody_backslash _).trans ?_
    simp only [List.append_eq, List.cons_append, List.nil_append, escape_control hcontrol]
  · exact quotedBody_self hquote hline hbackslash rest

/-- A text is read back from JSON. -/
theorem quotedBody_json (text : String) :
    quotedBody (text.toList.flatMap Json.escapedChar ++ ['"']) = .ok (text.toList, []) :=
  quotedBody_flatMap fun c _ => quotedBody_escapedJson c

/-- A text in JSON is read as a string. -/
theorem reads_json_string (text : String) :
    Reads (.value (.string text)) (Json.quoted text.toList) [] := by
  have hread := reads_quoted (quotedBody_json text)
  rwa [String.ofList_toList] at hread

/-- A member of a JSON object is read as the field that puts it in, with blanks behind the colon. -/
theorem reads_json_member (name : String) {v : Value} {b w : List Char}
    (hb : ∀ c ∈ b, isInlineBlank c = true) (h : Reads (.value v) w []) :
    Reads (.field ⟨[name], v⟩)
      ('"' :: ((name.toList.flatMap Json.escapedChar ++ ['"']) ++ ':' :: (b ++ w))) [] := by
  have hfield := reads_field_quoted (quotedBody_json name) hb h
  rwa [String.ofList_toList] at hfield

end Grammar

/-! ## JSON values -/

namespace Json

mutual

/-- A JSON value as a config value. -/
def toValue : Json → Value
  | .null => .null
  | .number n => .number (toString n)
  | .string text => .string text
  | .array items => .list (itemValues items)
  | .object members => .object (memberValues members)

/-- JSON items as config values. -/
def itemValues : List Json → List Value
  | [] => []
  | item :: rest => toValue item :: itemValues rest

/-- JSON members as entries. -/
def memberValues : List (String × Json) → Object
  | [] => []
  | (name, value) :: rest => (name, toValue value) :: memberValues rest

end

/-- Items become values one by one. -/
theorem itemValues_eq_map (items : List Json) : itemValues items = items.map toValue := by
  induction items with
  | nil => rfl
  | cons item rest ih => rw [itemValues, ih, List.map_cons]

/-- A new line and the blanks behind it are blanks. -/
theorem isBlank_of_mem_newLine (level : Nat) : ∀ c ∈ newLine level, Text.isBlank c = true := by
  intro c hc
  rcases List.mem_cons.1 hc with rfl | hmem
  · decide
  · rw [List.eq_of_mem_replicate hmem]
    decide

end Json

namespace Grammar

open LeaderKey.Text

mutual

/-- JSON on one line is read as its value. -/
theorem reads_compact : ∀ j : Json, j.toValue.Keyed → Reads (.value j.toValue) j.compact []
  | .null, _ => .scalar (by decide +kernel)
  | .number n, _ => reads_decimal n
  | .string text, _ => reads_json_string text
  | .array items, h => by
    cases h with
    | list hitems => exact .list (reads_compactItems items hitems)
  | .object members, h =>
    .object_of_fields (Object.Keyed.nodup h)
      (reads_compactMembers members fun _ he => Object.Keyed.value h he)

/-- JSON items on one line are read as their values. -/
theorem reads_compactItems : ∀ items : List Json, (∀ v ∈ Json.itemValues items, v.Keyed) →
    Reads (.items (Json.itemValues items)) (Json.compactItems items ++ [']']) []
  | [], _ => reads_items_text (by decide +kernel)
  | [item], h => (reads_compact item (h _ List.mem_cons_self)).items_last (g := []) nofun
  | item :: next :: rest, h => by
    have hitem := reads_compact item (h _ List.mem_cons_self)
    have hmore := reads_compactItems (next :: rest) fun v hv => h v (List.mem_cons_of_mem _ hv)
    -- The next item stands right behind the comma.
    rw [Json.compactItems, List.append_assoc]
    exact hitem.items_comma (g := []) nofun hmore

/-- JSON members on one line are read as their entries. -/
theorem reads_compactMembers : ∀ members : List (String × Json),
    (∀ e ∈ Json.memberValues members, e.2.Keyed) →
    Reads (.fields .brace (Json.memberValues members).fields)
      (Json.compactMembers members ++ ['}']) []
  | [], _ => reads_fields_text (by decide +kernel)
  | [(name, value)], h => by
    have hvalue := reads_compact value (h _ List.mem_cons_self)
    exact (reads_json_member name (b := []) nofun hvalue).fields_last (afterGap_quote _)
      (g := []) nofun
  | (name, value) :: next :: rest, h => by
    have hvalue := reads_compact value (h _ List.mem_cons_self)
    have hmore := reads_compactMembers (next :: rest) fun e he => h e (List.mem_cons_of_mem _ he)
    rw [Json.compactMembers, List.append_assoc]
    exact (reads_json_member name (b := []) nofun hvalue).fields_comma (afterGap_quote _)
      (g := []) nofun hmore

end

mutual

/-- JSON over several lines is read as its value. -/
theorem reads_pretty : ∀ (j : Json) (level : Nat), j.toValue.Keyed →
    Reads (.value j.toValue) (j.pretty level) []
  | .null, _, _ => .scalar (show scalar ['n', 'u', 'l', 'l'] = _ by decide +kernel)
  | .number n, _, _ => reads_decimal n
  | .string text, _, _ => reads_json_string text
  | .array [], _, _ => .list (reads_items_text (by decide +kernel))
  | .array (item :: rest), level, h => by
    have hassoc : (Json.array (item :: rest)).pretty level =
        '[' :: (Json.newLine (level + 1) ++ (Json.prettyItems (level + 1) (item :: rest) ++
          (Json.newLine level ++ [']']))) := by
      simp [Json.pretty]
    rw [hassoc]
    -- The line of the first item and the line of the bracket are gaps of the list.
    cases h with
    | list hitems =>
      have hread := reads_prettyItems (item :: rest) (level + 1) hitems
        (Json.isBlank_of_mem_newLine level)
      exact .list (hread.items_blanks (Json.isBlank_of_mem_newLine (level + 1)))
  | .object [], _, _ => .object_of_fields (o := []) .nil (reads_fields_text (by decide +kernel))
  | .object (member :: rest), level, h => by
    have hassoc : (Json.object (member :: rest)).pretty level =
        '{' :: (Json.newLine (level + 1) ++ (Json.prettyMembers (level + 1) (member :: rest) ++
          (Json.newLine level ++ ['}']))) := by
      simp [Json.pretty]
    rw [hassoc]
    have hread := reads_prettyMembers (member :: rest) (level + 1)
      (fun _ he => Object.Keyed.value h he) (Json.isBlank_of_mem_newLine level)
    exact .object_of_fields (Object.Keyed.nodup h)
      (hread.fields_blanks (Json.isBlank_of_mem_newLine (level + 1)))

/-- JSON items over several lines are read as their values. -/
theorem reads_prettyItems : ∀ (items : List Json) (level : Nat),
    (∀ v ∈ Json.itemValues items, v.Keyed) → ∀ {g : List Char}, (∀ c ∈ g, isBlank c = true) →
      Reads (.items (Json.itemValues items)) (Json.prettyItems level items ++ (g ++ [']'])) []
  | [], _, _, _, hg => reads_items_text (afterGap_blanks hg _)
  | [item], level, h, _, hg => (reads_pretty item level (h _ List.mem_cons_self)).items_last hg
  | item :: next :: rest, level, h, g, hg => by
    have hitem := reads_pretty item level (h _ List.mem_cons_self)
    have hmore := reads_prettyItems (next :: rest) level
      (fun v hv => h v (List.mem_cons_of_mem _ hv)) hg
    have hassoc : Json.prettyItems level (item :: next :: rest) ++ (g ++ [']']) =
        item.pretty level ++ ',' :: (Json.newLine level ++
          (Json.prettyItems level (next :: rest) ++ (g ++ [']']))) := by
      simp [Json.prettyItems]
    rw [hassoc]
    exact hitem.items_comma (Json.isBlank_of_mem_newLine level) hmore

/-- JSON members over several lines are read as their entries. -/
theorem reads_prettyMembers : ∀ (members : List (String × Json)) (level : Nat),
    (∀ e ∈ Json.memberValues members, e.2.Keyed) →
      ∀ {g : List Char}, (∀ c ∈ g, isBlank c = true) →
        Reads (.fields .brace (Json.memberValues members).fields)
          (Json.prettyMembers level members ++ (g ++ ['}'])) []
  | [], _, _, _, hg => reads_fields_text (afterGap_blanks hg _)
  | [(name, value)], level, h, _, hg => by
    have hvalue := reads_pretty value level (h _ List.mem_cons_self)
    exact (reads_json_member name (b := [' ']) isInlineBlank_of_mem_space hvalue).fields_last
      (afterGap_quote _) hg
  | (name, value) :: next :: rest, level, h, g, hg => by
    have hvalue := reads_pretty value level (h _ List.mem_cons_self)
    have hmore := reads_prettyMembers (next :: rest) level
      (fun e he => h e (List.mem_cons_of_mem _ he)) hg
    have hassoc : Json.prettyMembers level ((name, value) :: next :: rest) ++ (g ++ ['}']) =
        '"' :: (((name.toList.flatMap Json.escapedChar ++ ['"']) ++
          ':' :: ([' '] ++ value.pretty level)) ++ ',' :: (Json.newLine level ++
            (Json.prettyMembers level (next :: rest) ++ (g ++ ['}'])))) := by
      simp [Json.prettyMembers, Json.quoted]
    rw [hassoc]
    exact (reads_json_member name (b := [' ']) isInlineBlank_of_mem_space hvalue).fields_comma
      (afterGap_quote _) (Json.isBlank_of_mem_newLine level) hmore

end

end Grammar

/-! ## The tree of a config -/

/-- What is read of a chord. -/
def KeyChord.tree (chord : KeyChord) : Value :=
  .object [
    ("modifiers", .list (chord.modifiers.map fun m => .string m.name)),
    ("keyCode", .number (toString chord.code.val.toNat)),
    ("keyChar", .string (String.singleton chord.char))]

/-- What is read of the members that actions and groups have in common. -/
def Label.entries (label : Label) (kind : String) : Object :=
  [("kind", .string kind), ("key", .string (String.singleton label.key)),
   ("keyChord", label.chord.tree), ("description", .string label.description)]

namespace Binding

mutual

/-- What is read of a binding. -/
def tree : Binding → Value
  | .action label actionId => .object (label.entries "single" ++ [("actionId", .string actionId)])
  | .group label children =>
    .object (label.entries "group" ++ [("children", .list (trees children))])

/-- What is read of bindings. -/
def trees : List Binding → List Value
  | [] => []
  | b :: rest => tree b :: trees rest

end

end Binding

/-- The object that the JSON text of a config describes. -/
def Config.tree (c : Config) : Object :=
  [("appearance", .object [("title", (c.appearance.title.map Value.string).getD .null)]),
   ("bindings", .list (Binding.trees c.bindings))]

/-- The chord as a value. -/
theorem KeyChord.toValue_toJson (chord : KeyChord) : chord.toJson.toValue = chord.tree := by
  simp only [toJson, tree, Json.toValue, Json.memberValues, Json.itemValues_eq_map, List.map_map]
  rfl

namespace Binding

mutual

/-- The binding as a value. -/
theorem toValue_toJson : ∀ b : Binding, b.toJson.toValue = b.tree
  | .action label actionId => by
    simp only [toJson, tree, Label.members, Label.entries, List.cons_append, List.nil_append,
      Json.toValue, Json.memberValues, KeyChord.toValue_toJson]
  | .group label children => by
    simp only [toJson, tree, Label.members, Label.entries, List.cons_append, List.nil_append,
      Json.toValue, Json.memberValues, KeyChord.toValue_toJson, itemValues_listToJson children]

/-- Bindings as values. -/
theorem itemValues_listToJson : ∀ bs : List Binding,
    Json.itemValues (listToJson bs) = trees bs
  | [] => rfl
  | b :: rest => by
    rw [listToJson, Json.itemValues, toValue_toJson b, itemValues_listToJson rest, trees]

end

end Binding

/-- The config as a value. -/
theorem Config.toValue_toJson (c : Config) : c.toJson.toValue = .object c.tree := by
  have htitle : ((c.appearance.title.map Json.string).getD .null).toValue =
      (c.appearance.title.map Value.string).getD .null := by
    cases c.appearance.title with
    | none => rfl
    | some title => rfl
  simp only [toJson, tree, Json.toValue, Json.memberValues, htitle,
    Binding.itemValues_listToJson]

/-! ## The tree is keyed -/

/-- What is read of a chord is keyed. -/
theorem KeyChord.keyed_tree (chord : KeyChord) : chord.tree.Keyed := by
  have hnodup : ["modifiers", "keyCode", "keyChar"].Nodup := by decide
  refine .object hnodup (List.forall_mem_cons.2 ⟨.list fun v hv => ?_,
    List.forall_mem_cons.2 ⟨.number _, List.forall_mem_singleton.2 (.string _)⟩⟩)
  obtain ⟨m, _, rfl⟩ := List.mem_map.1 hv
  exact .string m.name

/-- What is read of the members that actions and groups have in common is keyed. -/
theorem Label.keyed_entries (label : Label) (kind : String) :
    ∀ e ∈ label.entries kind, e.2.Keyed :=
  List.forall_mem_cons.2 ⟨.string _, List.forall_mem_cons.2 ⟨.string _,
    List.forall_mem_cons.2 ⟨label.chord.keyed_tree, List.forall_mem_singleton.2 (.string _)⟩⟩⟩

namespace Binding

mutual

/-- What is read of a binding is keyed. -/
theorem keyed_tree : ∀ b : Binding, b.tree.Keyed
  | .action label actionId => by
    have hnodup : ["kind", "key", "keyChord", "description", "actionId"].Nodup := by decide
    exact .object hnodup (List.forall_mem_append.2
      ⟨label.keyed_entries "single", List.forall_mem_singleton.2 (.string actionId)⟩)
  | .group label children => by
    have hnodup : ["kind", "key", "keyChord", "description", "children"].Nodup := by decide
    exact .object hnodup (List.forall_mem_append.2
      ⟨label.keyed_entries "group", List.forall_mem_singleton.2 (.list (keyed_trees children))⟩)

/-- What is read of bindings is keyed. -/
theorem keyed_trees : ∀ bs : List Binding, ∀ v ∈ trees bs, v.Keyed
  | [] => nofun
  | b :: rest => List.forall_mem_cons.2 ⟨keyed_tree b, keyed_trees rest⟩

end

end Binding

/-- What is read of a config is keyed. -/
theorem Config.keyed_tree (c : Config) : Object.Keyed c.tree := by
  have hnodup : ["appearance", "bindings"].Nodup := by decide
  have htitle : ((c.appearance.title.map Value.string).getD .null).Keyed := by
    cases c.appearance.title with
    | none => exact .null
    | some title => exact .string title
  exact .object hnodup (List.forall_mem_cons.2
    ⟨.object (List.nodup_singleton _) (List.forall_mem_singleton.2 htitle),
      List.forall_mem_singleton.2 (.list (Binding.keyed_trees c.bindings))⟩)

/-! ## The tree tells configs apart -/

/-- Different modifiers have different names. -/
theorem Modifier.name_injective : Function.Injective name := by
  intro a b
  cases a <;> cases b <;> decide

/-- Numbers with the same decimal digits are the same. -/
theorem eq_of_toString {m n : Nat} (h : toString m = toString n) : m = n := by
  have hdigits : Nat.toDigits 10 m = Nat.toDigits 10 n := String.ofList_injective h
  calc m = Nat.ofDigitChars 10 (Nat.toDigits 10 m) 0 := Nat.ofDigitChars_ten_toDigits.symm
    _ = Nat.ofDigitChars 10 (Nat.toDigits 10 n) 0 := by rw [hdigits]
    _ = n := Nat.ofDigitChars_ten_toDigits

/-- Different chords are read as different values. -/
theorem KeyChord.tree_injective : Function.Injective tree := by
  intro a b h
  simp only [tree, Value.object.injEq, List.cons.injEq, Prod.mk.injEq, Value.list.injEq,
    Value.number.injEq, Value.string.injEq, String.singleton_inj, true_and, and_true] at h
  obtain ⟨hnames, hcode, hchar⟩ := h
  have hname : Function.Injective fun m : Modifier => Value.string m.name := fun m m' hm =>
    Modifier.name_injective (Value.string.inj hm)
  have hmodifiers : a.modifiers = b.modifiers := List.map_injective_iff.2 hname hnames
  -- A code is read as its decimal digits, and these give the number back.
  have hval : a.code.val = b.code.val := UInt32.toNat_inj.1 (eq_of_toString hcode)
  calc a = ⟨a.modifiers, ⟨a.code.val⟩, a.char⟩ := rfl
    _ = ⟨b.modifiers, ⟨b.code.val⟩, b.char⟩ := by rw [hmodifiers, hval, hchar]
    _ = b := rfl

/-- Different labels give different entries. -/
theorem Label.eq_of_entries {a b : Label} (hkey : a.key = b.key)
    (hchord : a.chord.tree = b.chord.tree) (hdescription : a.description = b.description) :
    a = b := by
  calc a = ⟨a.key, a.chord, a.description⟩ := rfl
    _ = ⟨b.key, b.chord, b.description⟩ := by
      rw [hkey, KeyChord.tree_injective hchord, hdescription]
    _ = b := rfl

namespace Binding

mutual

/-- Different bindings are read as different values. -/
theorem eq_of_tree : ∀ a b : Binding, a.tree = b.tree → a = b
  | .action label actionId, .action label' actionId', h => by
    simp only [tree, Label.entries, List.cons_append, List.nil_append, Value.object.injEq,
      List.cons.injEq, Prod.mk.injEq, Value.string.injEq, String.singleton_inj, true_and,
      and_true] at h
    obtain ⟨hkey, hchord, hdescription, haction⟩ := h
    rw [Label.eq_of_entries hkey hchord hdescription, haction]
  | .group label children, .group label' children', h => by
    simp only [tree, Label.entries, List.cons_append, List.nil_append, Value.object.injEq,
      List.cons.injEq, Prod.mk.injEq, Value.string.injEq, Value.list.injEq, String.singleton_inj,
      true_and, and_true] at h
    obtain ⟨hkey, hchord, hdescription, hchildren⟩ := h
    rw [Label.eq_of_entries hkey hchord hdescription, eq_of_trees children children' hchildren]
  | .action _ _, .group _ _, h | .group _ _, .action _ _, h => by
    simp [tree, Label.entries] at h

/-- Different lists of bindings are read as different lists. -/
theorem eq_of_trees : ∀ as bs : List Binding, trees as = trees bs → as = bs
  | [], [], _ => rfl
  | [], _ :: _, h | _ :: _, [], h => by cases h
  | a :: as, b :: bs, h => by
    obtain ⟨hfirst, hrest⟩ := List.cons.inj h
    rw [eq_of_tree a b hfirst, eq_of_trees as bs hrest]

end

end Binding

namespace Config

/-- Different configs have different trees. -/
theorem tree_injective : Function.Injective tree := by
  intro a b h
  simp only [tree, List.cons.injEq, Prod.mk.injEq, Value.object.injEq, Value.list.injEq, true_and,
    and_true] at h
  obtain ⟨htitle, hbindings⟩ := h
  have htitles : a.appearance.title = b.appearance.title := by
    cases ha : a.appearance.title <;> cases hb : b.appearance.title <;>
      simp_all
  calc a = ⟨⟨a.appearance.title⟩, a.bindings⟩ := rfl
    _ = ⟨⟨b.appearance.title⟩, b.bindings⟩ := by
      rw [htitles, Binding.eq_of_trees _ _ hbindings]
    _ = b := rfl

/-! ## JSON texts as documents -/

/-- The JSON text of a config on one line is its tree. -/
theorem parse_toLine (c : Config) : Document.parse c.toJson.toLine = .ok ⟨c.tree⟩ := by
  have hread := Grammar.reads_compact c.toJson (c.toValue_toJson ▸ c.keyed_tree)
  rw [c.toValue_toJson] at hread
  exact Document.parse_of_object hread

/-- The JSON text of a config over several lines is its tree. -/
theorem parse_toLines (c : Config) : Document.parse c.toJson.toLines = .ok ⟨c.tree⟩ := by
  have hread := Grammar.reads_pretty c.toJson 0 (c.toValue_toJson ▸ c.keyed_tree)
  rw [c.toValue_toJson] at hread
  exact Document.parse_of_object hread

/-- Both JSON texts of a config are config texts and describe its tree, in which every field has its
own value. So configs with the same JSON text are the same. -/
theorem parse_toJson :
    (∀ c : Config, Document.parse c.toJson.toLine = .ok ⟨c.tree⟩ ∧
      Document.parse c.toJson.toLines = .ok ⟨c.tree⟩) ∧
      Function.Injective (fun c : Config => c.toJson.toLine) ∧
      Function.Injective (fun c : Config => c.toJson.toLines) := by
  refine ⟨fun c => ⟨c.parse_toLine, c.parse_toLines⟩, fun a b h => ?_, fun a b h => ?_⟩
  · have hparse := a.parse_toLine
    rw [show a.toJson.toLine = b.toJson.toLine from h, b.parse_toLine] at hparse
    exact (tree_injective (congrArg Document.root (Except.ok.inj hparse))).symm
  · have hparse := a.parse_toLines
    rw [show a.toJson.toLines = b.toJson.toLines from h, b.parse_toLines] at hparse
    exact (tree_injective (congrArg Document.root (Except.ok.inj hparse))).symm

end Config

end LeaderKey
