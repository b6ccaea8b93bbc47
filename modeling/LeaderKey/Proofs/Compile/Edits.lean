import LeaderKey.Proofs.Compile.Result
import LeaderKey.Proofs.Mnemonic.Sort
import LeaderKey.Proofs.Value.Merge
import Mathlib.Logic.Relation

/-!
# Edits that compiling does not see

A value has a role in a document, by the keys that lead to it, and the role says what compiling reads
of the value. `Edit` lists the changes that keep all of this: entries in another order, fields that are
not read, the bindings of an entry with an action, and `null` in place of nothing. `Agree` says when
compiling cannot tell two values of a role apart; it holds for the two sides of every edit
(`Edit.agree`), and so edited documents compile to the same config (`compile_edited`).
-/

namespace LeaderKey

open Binding Document

/-- What a value is in a document. -/
inductive Role where
  /-- The root object. -/
  | root
  /-- How the bindings are shown. -/
  | appearance
  /-- The entries that bind mnemonics. -/
  | entries
  /-- One of these entries. -/
  | entry
  /-- Any other value. -/
  | other
  deriving DecidableEq

namespace Role

/-- The role of what stands under a key of an object. -/
def under : Role → String → Role
  | .root, key =>
    if key = bindingsField then .entries
    else if key = appearanceField then .appearance
    else .other
  | .entries, _ => .entry
  | .entry, key => if key = bindingsField then .entries else .other
  | .appearance, _ | .other, _ => .other

/-- The keys of the fields that are read of an object; of entries, all are read. -/
def fields : Role → List String
  | .root => [appearanceField, bindingsField]
  | .appearance => [titleField]
  | .entry => [descriptionField, actionField, bindingsField]
  | .entries | .other => []

/-- The paths of what may be left out of an object. -/
def optional : Role → List (List String)
  | .root => [[appearanceField, titleField], [bindingsField]]
  | .appearance => [[titleField]]
  | .entry => [[descriptionField], [actionField], [bindingsField]]
  | .entries | .other => []

end Role

/-- The fields of an object with some keys, in order. -/
def Object.only (o : Object) (keys : List String) : Object := o.filter fun e => e.1 ∈ keys

/-- The entries of an object whose keys begin with a character, in order. -/
def Object.startingWith (o : Object) (c : Char) : Object :=
  o.filter fun e => e.1.toList.head? == some c

/-- One change of a value that compiling does not see. -/
inductive Edit : Role → Value → Value → Prop
  /-- The entries of an object stand in another order; those that bind the same mnemonic keep their
  order. -/
  | reorder {role : Role} {o o' : Object} (hkeys : o.keys.Nodup) (hperm : o.Perm o')
      (hstable : role = .entries → ∀ c, o.startingWith c = o'.startingWith c) :
      Edit role (.object o) (.object o')
  /-- Fields that are not read are added, removed or changed. -/
  | unread {role : Role} {o o' : Object} (hrole : role ≠ .entries)
      (hfields : o.only role.fields = o'.only role.fields) :
      Edit role (.object o) (.object o')
  /-- The bindings of an entry with an action are changed. -/
  | hidden {o o' : Object} (haction : o.holds actionField = true)
      (hfields : o.only [descriptionField, actionField] = o'.only [descriptionField, actionField]) :
      Edit .entry (.object o) (.object o')
  /-- What has been left out is put down as `null`. -/
  | null {role : Role} {o : Object} {path : List String} (hpath : path ∈ role.optional)
      (habsent : o.lookup path = none) :
      Edit role (.object o) (.object (o.insertPath path .null))
  /-- A change inside a value of an object. -/
  | inside {role : Role} {before after : Object} {key : String} {v v' : Value}
      (h : Edit (role.under key) v v') :
      Edit role (.object (before ++ (key, v) :: after)) (.object (before ++ (key, v') :: after))
  /-- A change inside an item of a list. -/
  | item {role : Role} {before after : List Value} {v v' : Value} (h : Edit .other v v') :
      Edit role (.list (before ++ v :: after)) (.list (before ++ v' :: after))

/-- One change of a document that compiling does not see. -/
def Document.Edit (d d' : Document) : Prop :=
  LeaderKey.Edit .root (.object d.root) (.object d'.root)

/-! ## What compiling cannot tell apart -/

/-- Compiling cannot tell two values of a role apart, either of which may be missing. -/
def Agree : Role → Option Value → Option Value → Prop
  | .root, v, v' => ∀ chords,
    ((v.bind Value.object?).bind fun root => ((⟨root⟩ : Document).compile chords).result?) =
      (v'.bind Value.object?).bind fun root => ((⟨root⟩ : Document).compile chords).result?
  | .appearance, v, v' => optionalTitle v = optionalTitle v'
  | .entries, v, v' => ∀ chords path, optionalSiblings chords path v = optionalSiblings chords path v'
  | .entry, v, v' => ∀ chords path key,
    (v.bind fun body => entryResult chords path (key, body)) =
      v'.bind fun body => entryResult chords path (key, body)
  | .other, v, v' => Value.optionalText v = Value.optionalText v'

/-- A value agrees with itself. -/
theorem Agree.refl (role : Role) (v : Option Value) : Agree role v v := by
  cases role with
  | root => exact fun _ => rfl
  | appearance => exact Eq.refl _
  | entries => exact fun _ _ => rfl
  | entry => exact fun _ _ _ => rfl
  | other => exact Eq.refl _

/-- Two entries agree if their texts do, and also their bindings, unless an action hides these. -/
theorem agree_entry {o o' : Object}
    (hdescription : Agree .other (o.get? descriptionField) (o'.get? descriptionField))
    (haction : Agree .other (o.get? actionField) (o'.get? actionField))
    (hbindings : o.holds actionField = false →
      Agree .entries (o.get? bindingsField) (o'.get? bindingsField)) :
    Agree .entry (some (.object o)) (some (.object o')) := by
  intro chords path key
  simp only [Option.bind_some, entryResult, result?_buildEntry]
  refine Option.bind_congr fun mnemonic _ => ?_
  change (Value.optionalText (o.get? descriptionField)).join.bind _ =
    (Value.optionalText (o'.get? descriptionField)).join.bind _
  rw [hdescription]
  refine Option.bind_congr fun description _ => ?_
  rw [haction]
  refine Option.bind_congr fun action htext => ?_
  cases action with
  | some actionId => rfl
  | none =>
    have hnone : o.holds actionField = false := by
      by_contra hholds
      rw [Bool.not_eq_false] at hholds
      have hpresent := Value.optionalText_of_present hholds
      rw [haction, htext] at hpresent
      cases hpresent
    rw [hbindings hnone chords (subpath (subpath path key) bindingsField)]

/-- Two objects agree if the fields that are read of them do. -/
theorem agree_of_fields {role : Role} (hrole : role ≠ .entries) {o o' : Object}
    (h : ∀ key ∈ role.fields, Agree (role.under key) (o.get? key) (o'.get? key)) :
    Agree role (some (.object o)) (some (.object o')) := by
  cases role with
  | root =>
    intro chords
    have htitle := h appearanceField (by decide)
    have hbindings := h bindingsField (by decide)
    change (Document.compile ⟨o⟩ chords).result? = (Document.compile ⟨o'⟩ chords).result?
    rw [result?_compile, result?_compile]
    rw [show optionalTitle (o.get? appearanceField) = optionalTitle (o'.get? appearanceField) from
      htitle]
    rw [show optionalSiblings chords bindingsField (o.get? bindingsField) =
      optionalSiblings chords bindingsField (o'.get? bindingsField) from hbindings chords _]
  | appearance => exact h titleField (by decide)
  | entries => contradiction
  | entry =>
    exact agree_entry (h descriptionField (by decide)) (h actionField (by decide))
      fun _ => h bindingsField (by decide)
  | other => exact Eq.refl _

/-! ## Edits of fields -/

/-- A look-up among the fields that are read. -/
theorem Object.get?_only {keys : List String} {key : String} (h : key ∈ keys) (o : Object) :
    (o.only keys).get? key = o.get? key := by
  induction o with
  | nil => rfl
  | cons e rest ih =>
    obtain ⟨k, v⟩ := e
    rw [get?_cons]
    by_cases hk : k ∈ keys
    · rw [only, List.filter_cons, if_pos (decide_eq_true hk), get?_cons]
      rw [show get? (rest.filter fun e => e.1 ∈ keys) key = get? rest key from ih]
    · have hne : key ≠ k := fun heq => hk (heq ▸ h)
      rw [only, List.filter_cons, if_neg (by simpa using hk), if_neg hne]
      exact ih

/-- A look-up in an object in which one value has been changed. -/
theorem Object.get?_inside (before after : Object) (key : String) (v v' : Value) (k : String) :
    get? (before ++ (key, v) :: after) k = get? (before ++ (key, v') :: after) k ∨
      k = key ∧ get? (before ++ (key, v) :: after) k = some v ∧
        get? (before ++ (key, v') :: after) k = some v' := by
  induction before with
  | nil =>
    rw [List.nil_append, List.nil_append, get?_cons, get?_cons]
    by_cases hk : k = key
    · rw [if_pos hk, if_pos hk]
      exact Or.inr ⟨hk, rfl, rfl⟩
    · rw [if_neg hk, if_neg hk]
      exact Or.inl rfl
  | cons e before ih =>
    rw [List.cons_append, List.cons_append, get?_cons, get?_cons]
    by_cases hk : k = e.1
    · rw [if_pos hk, if_pos hk]
      exact Or.inl rfl
    · rw [if_neg hk, if_neg hk]
      exact ih

/-- An object whose fields of some keys are those of another one has the same values there. -/
theorem Object.get?_of_only_eq {o o' : Object} {keys : List String} (h : o.only keys = o'.only keys)
    {key : String} (hkey : key ∈ keys) : o.get? key = o'.get? key := by
  rw [← get?_only hkey o, h, get?_only hkey o']

/-! ## Edits of entries -/

/-- The level that an object of entries stands for, where there is no doubt that it is there. -/
theorem optionalSiblings_object (chords : ChordSource) (path : String) (entries : Object) :
    optionalSiblings chords path (some (.object entries)) =
      (collect (entries.map (entryResult chords path))).map fun made => some (arrange made) := by
  have hpresent : (Value.present? (some (.object entries))).isSome = true := rfl
  rw [optionalSiblings_of_present chords path hpresent]
  change (build chords path entries).result?.map some = _
  rw [result?_build, Option.map_map]
  rfl

/-- The first entry of an object and the others. -/
theorem Object.startingWith_cons (e : String × Value) (rest : Object) (c : Char) :
    startingWith (e :: rest) c =
      if e.1.toList.head? == some c then e :: rest.startingWith c else rest.startingWith c :=
  List.filter_cons

/-- The bindings of a mnemonic are made of the entries whose keys begin with it. -/
theorem filter_filterMap_entryResult (chords : ChordSource) (path : String) (entries : Object)
    (c : Char) :
    ((entries.map (entryResult chords path)).filterMap Option.join).filter (fun b => b.key == c) =
      ((entries.startingWith c).map (entryResult chords path)).filterMap Option.join := by
  induction entries with
  | nil => rfl
  | cons e rest ih =>
    have hskip (x : Option (Option Binding)) (hx : x.join = none) (l : List _) :
        (x :: l).filterMap Option.join = l.filterMap Option.join :=
      List.filterMap_cons_none hx
    rw [List.map_cons]
    match hresult : entryResult chords path e with
    | none | some none =>
      rw [hskip _ rfl, ih, Object.startingWith_cons]
      split
      · rw [List.map_cons, hresult, hskip _ rfl]
      · rfl
    | some (some b) =>
      have hkey := head?_of_entryResult hresult
      have htake (l : List (Option (Option Binding))) :
          (some (some b) :: l).filterMap Option.join = b :: l.filterMap Option.join :=
        List.filterMap_cons_some rfl
      rw [htake, List.filter_cons, Object.startingWith_cons, hkey, Option.some_beq_some, ih]
      by_cases hc : (b.key == c) = true
      · rw [if_pos hc, if_pos hc, List.map_cons, hresult, htake]
      · rw [if_neg hc, if_neg hc]

/-- Entries in another order make the same level, if those of one mnemonic keep their order. -/
theorem agree_reordered {o o' : Object} (hperm : o.Perm o')
    (hstable : ∀ c, o.startingWith c = o'.startingWith c) :
    Agree .entries (some (.object o)) (some (.object o')) := by
  intro chords path
  rw [optionalSiblings_object, optionalSiblings_object]
  have hall : (o.map (entryResult chords path)).all Option.isSome =
      (o'.map (entryResult chords path)).all Option.isSome := by
    rw [Bool.eq_iff_iff, List.all_eq_true, List.all_eq_true]
    exact forall_congr' fun x => imp_congr_left (hperm.map _).mem_iff
  rw [collect, collect, hall]
  by_cases hsome : (o'.map (entryResult chords path)).all Option.isSome = true
  · rw [if_pos hsome, if_pos hsome, Option.map_some, Option.map_some]
    -- Both levels are in order, and of each mnemonic they have the same bindings.
    have harranged (made : List Binding) : Mnemonic.Arranged key made (arrange made) :=
      Mnemonic.sort_arranged key made
    have hsame : arrange ((o.map (entryResult chords path)).filterMap Option.join) =
        arrange ((o'.map (entryResult chords path)).filterMap Option.join) := by
      refine Mnemonic.eq_of_filter_eq (harranged _).ordered (harranged _).ordered fun c => ?_
      rw [(harranged _).stable, (harranged _).stable, filter_filterMap_entryResult,
        filter_filterMap_entryResult, hstable]
    rw [hsame]
  · rw [if_neg hsome, if_neg hsome]

/-- Changing one entry to another that agrees with it makes the same level. -/
theorem agree_entries_inside {before after : Object} {key : String} {v v' : Value}
    (h : Agree .entry (some v) (some v')) :
    Agree .entries (some (.object (before ++ (key, v) :: after)))
      (some (.object (before ++ (key, v') :: after))) := by
  intro chords path
  have hentry : entryResult chords path (key, v) = entryResult chords path (key, v') :=
    h chords path key
  rw [optionalSiblings_object, optionalSiblings_object, List.map_append, List.map_append,
    List.map_cons, List.map_cons, hentry]

/-! ## Every edit -/

/-- In a role that is read as a text, a level or an appearance, `null` agrees with nothing. -/
theorem agree_none_null {role : Role} (hentry : role ≠ .entry) :
    Agree role none (some .null) := by
  cases role with
  | root => exact fun _ => rfl
  | appearance => exact Eq.refl (optionalTitle none)
  | entries => exact fun _ _ => rfl
  | entry => contradiction
  | other => exact Eq.refl (Value.optionalText none)

/-- A field that has been left out may be put down as `null`. -/
theorem agree_null_field {role : Role} (hrole : role ≠ .entries) {o : Object} {key : String}
    (hunder : role.under key ≠ .entry) (habsent : o.get? key = none) :
    Agree role (some (.object o)) (some (.object (o.insertPath [key] .null))) := by
  refine agree_of_fields hrole fun k _ => ?_
  by_cases hk : k = key
  · subst hk
    have hafter : (o.insertPath [k] .null).get? k = some .null :=
      o.lookup_insertPath_self (List.cons_ne_nil k []) .null rfl
    rw [habsent, hafter]
    exact agree_none_null hunder
  · have hafter : (o.insertPath [key] .null).lookup [k] = o.lookup [k] := by
      refine o.lookup_insertPath_of_apart .null ?_ ?_
      · exact fun hbegins => hk (List.cons_prefix_cons.1 hbegins).1
      · exact fun hextends => hk (List.cons_prefix_cons.1 hextends).1.symm
    change (o.insertPath [key] .null).get? k = o.get? k at hafter
    rw [hafter]
    exact .refl _ _

/-- What has been left out of an object may be put down as `null`. -/
theorem agree_null {role : Role} {o : Object} {path : List String} (hpath : path ∈ role.optional)
    (habsent : o.lookup path = none) :
    Agree role (some (.object o)) (some (.object (o.insertPath path .null))) := by
  cases role with
  | root =>
    simp only [Role.optional, List.mem_cons, List.not_mem_nil, or_false] at hpath
    rcases hpath with rfl | rfl
    · -- The title stands in an object of its own, which may be made for it.
      have hafter : (o.insertPath [appearanceField, titleField] .null).lookup
          [appearanceField, titleField] = some .null :=
        o.lookup_insertPath_self (List.cons_ne_nil _ _) .null rfl
      have hbindings : (o.insertPath [appearanceField, titleField] .null).lookup
          [bindingsField] = o.lookup [bindingsField] :=
        o.lookup_insertPath_of_apart .null (by decide) (by decide)
      refine agree_of_fields (by decide) fun key hkey => ?_
      simp only [Role.fields, List.mem_cons, List.not_mem_nil, or_false] at hkey
      rcases hkey with rfl | rfl
      · change Value.optionalText (o.lookup [appearanceField, titleField]) =
          Value.optionalText ((o.insertPath _ .null).lookup [appearanceField, titleField])
        rw [habsent, hafter]
        rfl
      · change (o.insertPath _ .null).get? bindingsField = o.get? bindingsField at hbindings
        rw [hbindings]
        exact .refl _ _
    · exact agree_null_field (by decide) (by decide) habsent
  | appearance =>
    rw [Role.optional, List.mem_singleton] at hpath
    subst hpath
    exact agree_null_field (by decide) (by decide) habsent
  | entries => cases hpath
  | entry =>
    simp only [Role.optional, List.mem_cons, List.not_mem_nil, or_false] at hpath
    rcases hpath with rfl | rfl | rfl <;>
      exact agree_null_field (by decide) (by decide) habsent
  | other => cases hpath

/-- Two lists agree in any role, as nothing is read of either. -/
theorem agree_lists (role : Role) (items items' : List Value) :
    Agree role (some (.list items)) (some (.list items')) := by
  cases role with
  | root => exact fun _ => rfl
  | appearance => exact Eq.refl (optionalTitle (some (.list items)))
  | entries => exact fun _ _ => rfl
  | entry =>
    intro chords path key
    simp only [Option.bind_some, entryResult, result?_buildEntry, Value.object?, Option.bind_none]
  | other => exact Eq.refl (Value.optionalText (some (.list items)))

/-- Compiling cannot tell the two sides of an edit apart. -/
theorem Edit.agree {role : Role} {v v' : Value} (h : Edit role v v') :
    Agree role (some v) (some v') := by
  -- The induction is on the place of the edit; entries are read by their order, all other objects by
  -- what is looked up in them.
  induction h with
  | @reorder role o o' hkeys hperm hstable =>
    by_cases hrole : role = .entries
    · subst hrole
      exact agree_reordered hperm (hstable rfl)
    · refine agree_of_fields hrole fun key _ => ?_
      rw [Object.get?_perm hkeys hperm]
      exact .refl _ _
  | @unread role o o' hrole hfields =>
    refine agree_of_fields hrole fun key hkey => ?_
    rw [Object.get?_of_only_eq hfields hkey]
    exact .refl _ _
  | @hidden o o' haction hfields =>
    refine agree_entry ?_ ?_ fun hnone => ?_
    · rw [Object.get?_of_only_eq hfields (by decide)]
      exact .refl _ _
    · rw [Object.get?_of_only_eq hfields (by decide)]
      exact .refl _ _
    · rw [haction] at hnone
      cases hnone
  | null hpath habsent => exact agree_null hpath habsent
  | @inside role before after key v v' _ ih =>
    by_cases hrole : role = .entries
    · subst hrole
      exact agree_entries_inside ih
    · refine agree_of_fields hrole fun k _ => ?_
      rcases Object.get?_inside before after key v v' k with hsame | ⟨rfl, hv, hv'⟩
      · rw [hsame]
        exact .refl _ _
      · rw [hv, hv']
        exact ih
  | item _ _ => exact agree_lists _ _ _

/-- Documents that differ by any combination of such edits, there and back, compile with any chords to
the same config, or neither compiles. -/
theorem compile_edited {d d' : Document} (h : Relation.EqvGen Document.Edit d d')
    (chords : ChordSource) (config : Config) :
    (d.compile chords).outcome = .ok config ↔ (d'.compile chords).outcome = .ok config := by
  rw [← Compilation.result?_eq_some, ← Compilation.result?_eq_some]
  have hresult : (d.compile chords).result? = (d'.compile chords).result? := by
    induction h with
    | rel d d' hedit => exact hedit.agree chords
    | refl d => rfl
    | symm d d' _ ih => exact ih.symm
    | trans d e d' _ _ first second => exact first.trans second
  rw [hresult]

/-- An entry for a group, and one for an action with something under its bindings. -/
def groupAndAction : Object :=
  [("w", .object [("description", .string "Windows"), ("bindings", .object [])]),
    ("b", .object [("description", .string "Build"), ("actionId", .string "Compile"),
      ("bindings", .number "1")])]

/-- A document with these entries and a field of no meaning. -/
def beforeEdits : Document := ⟨[("theme", .string "dark"), ("bindings", .object groupAndAction)]⟩

/-- The same with the entries in another order, with nothing under the bindings of the action, without
the field of no meaning and with `null` for the title. -/
def afterEdits : Document :=
  ⟨[("bindings", .object [
      ("b", .object [("description", .string "Build"), ("actionId", .string "Compile")]),
      ("w", .object [("description", .string "Windows"), ("bindings", .object [])])]),
    ("appearance", .object [("title", .null)])]⟩

/-- One of these documents is made from the other by four edits. -/
theorem edited_beforeEdits : Relation.EqvGen Document.Edit beforeEdits afterEdits := by
  have hunread : Document.Edit beforeEdits ⟨[("bindings", .object groupAndAction)]⟩ :=
    .unread (by decide) (by decide)
  have hstable (c : Char) : Object.startingWith groupAndAction c =
      Object.startingWith groupAndAction.reverse c := by
    by_cases hw : c = 'w'
    · subst hw
      decide
    · by_cases hb : c = 'b'
      · subst hb
        decide
      · simp [groupAndAction, Object.startingWith, Ne.symm hw, Ne.symm hb]
  have hreorder : Document.Edit ⟨[("bindings", .object groupAndAction)]⟩
      ⟨[("bindings", .object groupAndAction.reverse)]⟩ :=
    @Edit.inside .root [] _ _ _ _ (.reorder (by decide) (List.reverse_perm _).symm fun _ => hstable)
  have hhidden : Document.Edit ⟨[("bindings", .object groupAndAction.reverse)]⟩
      ⟨afterEdits.root.take 1⟩ :=
    @Edit.inside .root [] _ _ _ _ (@Edit.inside .entries [] _ _ _ _
      (.hidden (by decide) (by decide)))
  have htitle : ["appearance", "title"] ∈ Role.root.optional := by decide
  have hnull : Document.Edit ⟨afterEdits.root.take 1⟩ afterEdits := .null htitle (by decide)
  exact .trans _ _ _ (.rel _ _ hunread) (.trans _ _ _ (.rel _ _ hreorder)
    (.trans _ _ _ (.rel _ _ hhidden) (.rel _ _ hnull)))

/-- Both compile to the same config. -/
theorem compile_edited_beforeEdits :
    Relation.EqvGen Document.Edit beforeEdits afterEdits ∧
      (afterEdits.compile .ofChar).outcome = .ok ⟨{}, [
        .action ⟨'b', .ofChar 'b', "Build"⟩ "Compile", .group ⟨'w', .ofChar 'w', "Windows"⟩ []]⟩ := by
  have hwb : Mnemonic.before 'w' 'b' = false := by decide +kernel
  have h (chords : ChordSource) : (beforeEdits.compile chords).outcome = .ok ⟨{}, [
      .action ⟨'b', chords 'b', "Build"⟩ "Compile", .group ⟨'w', chords 'w', "Windows"⟩ []]⟩ :=
    calc (beforeEdits.compile chords).outcome
        = .ok ⟨{}, Binding.arrange [.group ⟨'w', chords 'w', "Windows"⟩ (Binding.arrange []),
          .action ⟨'b', chords 'b', "Build"⟩ "Compile"]⟩ := rfl
      _ = _ := by simp [Binding.arrange, Mnemonic.sort_cons, Binding.key, Binding.label, hwb]
  exact ⟨edited_beforeEdits, (compile_edited edited_beforeEdits .ofChar _).1 (h .ofChar)⟩

end LeaderKey
