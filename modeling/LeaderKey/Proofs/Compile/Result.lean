import LeaderKey.Proofs.Compile.Entries
import Mathlib.Data.List.Basic

/-!
# What compiles, and to what

The result of a compilation, without the reason where there is none (`Compilation.result?`), in terms
of what is read: two fields of an entry are texts that may be left out (`Value.optionalText`), and one
holds entries that may be left out (`Binding.optionalSiblings`). `Binding.result?_buildEntry` is the
rule for an entry, `Binding.result?_build` for the entries of an object, and `Document.result?_compile`
for a document.
-/

namespace LeaderKey

namespace Compilation

variable {α β : Type}

/-- What a compilation comes to, if it comes to something. -/
def result? (x : Compilation α) : Option α := x.outcome.toOption

/-- A result is a successful outcome. -/
theorem result?_eq_some {x : Compilation α} {a : α} :
    x.result? = some a ↔ x.outcome = .ok a := by
  rw [result?]
  cases x.outcome with
  | ok b => simp [Except.toOption]
  | error e => simp [Except.toOption]

/-- Two steps come to something if both do. -/
theorem result?_bind (x : Compilation α) (f : α → Compilation β) :
    (x >>= f).result? = x.result?.bind fun a => (f a).result? := by
  cases h : x.outcome with
  | ok a => simp [result?, bind_of_ok h, h, Except.toOption]
  | error e => simp [result?, bind_of_error h, h, Except.toOption]

/-- A step that may fail comes to what it gives. -/
theorem result?_ofAccess (r : Except AccessError α) : (ofAccess r).result? = r.toOption := by
  cases r <;> rfl

end Compilation

namespace Value

/-- The text of a value that may be left out, or be `null`; there is none where the value has no
text. -/
def optionalText (v : Option Value) : Option (Option String) :=
  match present? v with
  | none => some none
  | some w => w.text?.map some

/-- A required text is a text that has not been left out. -/
theorem toOption_requireText (v : Option Value) (path : String) :
    (requireText v path).toOption = (optionalText v).join := by
  rw [requireText, optionalText]
  cases present? v with
  | none => rfl
  | some w => cases htext : w.text? <;> simp [htext, Except.toOption]

/-- A required object is the object there. -/
theorem toOption_requireObject (v : Option Value) (path : String) :
    (requireObject v path).toOption = v.bind object? := by
  match v with
  | none => rfl
  | some w => cases w <;> rfl

/-- Where there is a value, an optional text is a required one. -/
theorem optionalText_of_present {v : Option Value} (h : (present? v).isSome = true) :
    optionalText v = (optionalText v).join.map some := by
  rw [optionalText]
  cases hpresent : present? v with
  | none =>
    rw [hpresent] at h
    cases h
  | some w => cases htext : w.text? <;> simp [htext]

/-- Where there is none, an optional text is left out. -/
theorem optionalText_of_absent {v : Option Value} (h : (present? v).isSome = false) :
    optionalText v = some none := by
  rw [Option.isSome_eq_false_iff, Option.isNone_iff_eq_none] at h
  rw [optionalText, h]

end Value

namespace Binding

/-- The bindings of entries that may be left out, or be `null`; there are none where the value is no
object or an entry does not compile. -/
def optionalSiblings (chords : ChordSource) (path : String) (v : Option Value) :
    Option (Option (List Binding)) :=
  match Value.present? v with
  | none => some none
  | some w => w.object?.bind fun entries => (build chords path entries).result?.map some

/-- What an entry under a path comes to: a binding, or nothing to bind. -/
def entryResult (chords : ChordSource) (path : String) (e : String × Value) :
    Option (Option Binding) :=
  (buildEntry chords e.1 (subpath path e.1) e.2).result?

/-- The bindings that some entries come to, if all of them come to something. -/
def collect (results : List (Option (Option Binding))) : Option (List Binding) :=
  if results.all Option.isSome then some (results.filterMap Option.join) else none

/-- Where there is a value, optional entries are required ones. -/
theorem optionalSiblings_of_present (chords : ChordSource) (path : String) {v : Option Value}
    (h : (Value.present? v).isSome = true) :
    optionalSiblings chords path v = (v.bind Value.object?).bind fun entries =>
      (build chords path entries).result?.map some := by
  rw [optionalSiblings]
  match v with
  | none => cases h
  | some .null => cases h
  | some (.boolean _) | some (.number _) | some (.string _) | some (.list _) => rfl
  | some (.object _) => rfl

/-- Where there is none, optional entries are left out. -/
theorem optionalSiblings_of_absent (chords : ChordSource) (path : String) {v : Option Value}
    (h : (Value.present? v).isSome = false) :
    optionalSiblings chords path v = some none := by
  rw [Option.isSome_eq_false_iff, Option.isNone_iff_eq_none] at h
  rw [optionalSiblings, h]

/-- The bindings of some entries, in the order of their mnemonics. -/
theorem result?_build_eq (chords : ChordSource) (path : String) (entries : Object) :
    (build chords path entries).result? =
      (buildEntries chords path entries).result?.map arrange := by
  rw [build, Compilation.result?_bind]
  cases (buildEntries chords path entries).result? <;> rfl

/-- What an entry comes to, in terms of what is read of it: an action hides the bindings. -/
theorem result?_buildEntry (chords : ChordSource) (key path : String) (body : Value) :
    (buildEntry chords key path body).result? =
      key.toList.head?.bind fun mnemonic => body.object?.bind fun fields =>
        (Value.optionalText (fields.get? descriptionField)).join.bind fun description =>
          (Value.optionalText (fields.get? actionField)).bind fun
            | some actionId =>
              some (some (.action ⟨mnemonic, chords mnemonic, description⟩ actionId))
            | none =>
              (optionalSiblings chords (subpath path bindingsField)
                (fields.get? bindingsField)).map fun children =>
                children.map fun siblings =>
                  .group ⟨mnemonic, chords mnemonic, description⟩ siblings := by
  rw [buildEntry_eq]
  cases key.toList with
  | nil => rfl
  | cons mnemonic _ =>
    rw [Compilation.result?_bind, Compilation.result?_ofAccess, Value.toOption_requireObject,
      List.head?_cons, Option.bind_some, Option.bind_some]
    refine Option.bind_congr fun fields _ => ?_
    rw [Compilation.result?_bind, Compilation.result?_ofAccess, Value.toOption_requireText]
    refine Option.bind_congr fun description _ => ?_
    -- An action hides the siblings; without one the entry is a group, if it has siblings.
    by_cases haction : fields.holds actionField = true
    · rw [if_pos haction, Compilation.result?_bind, Compilation.result?_ofAccess,
        Value.toOption_requireText, Value.optionalText_of_present haction]
      cases (Value.optionalText (fields.get? actionField)).join <;> rfl
    · rw [if_neg haction, Value.optionalText_of_absent (Bool.not_eq_true _ ▸ haction),
        Option.bind_some]
      by_cases hbindings : fields.holds bindingsField = true
      · rw [if_pos hbindings, optionalSiblings_of_present chords _ hbindings,
          Compilation.result?_bind, Compilation.result?_ofAccess, Value.toOption_requireObject]
        cases (fields.get? bindingsField).bind Value.object? with
        | none => rfl
        | some entries =>
          rw [Option.bind_some, Option.bind_some, Compilation.result?_bind, result?_build_eq]
          cases (buildEntries chords (subpath path bindingsField) entries).result? <;> rfl
      · rw [if_neg hbindings,
          optionalSiblings_of_absent chords _ (Bool.not_eq_true _ ▸ hbindings)]
        rfl

/-- What an entry is bound to has the first character of its key as mnemonic. -/
theorem head?_of_entryResult {chords : ChordSource} {path : String} {e : String × Value}
    {b : Binding} (h : entryResult chords path e = some (some b)) :
    e.1.toList.head? = some b.key := by
  obtain ⟨key, body⟩ := e
  obtain ⟨dropped, hbuild⟩ : ∃ dropped,
      buildEntry chords key (subpath path key) body = ⟨dropped, .ok (some b)⟩ :=
    ⟨_, congrArg (Compilation.mk _) (Compilation.result?_eq_some.1 h)⟩
  cases built_of_buildEntry hbuild with
  | action hlabel _ => exact hlabel.key
  | group hlabel _ _ _ => exact hlabel.key

/-- The first of some results, and the others. -/
theorem collect_cons (result : Option (Option Binding)) (rest : List (Option (Option Binding))) :
    collect (result :: rest) =
      result.bind fun b => (collect rest).map fun bs => b.toList ++ bs := by
  match result with
  | none => rfl
  | some b =>
    unfold collect
    rw [List.all_cons, Option.isSome_some, Bool.true_and, Option.bind_some]
    by_cases hall : rest.all Option.isSome = true
    · rw [if_pos hall, if_pos hall, Option.map_some]
      cases b <;> rfl
    · rw [if_neg hall, if_neg hall, Option.map_none]

/-- What the entries of an object come to in source order. -/
theorem result?_buildEntries (chords : ChordSource) (path : String) (entries : Object) :
    (buildEntries chords path entries).result? =
      collect (entries.map (entryResult chords path)) := by
  induction entries with
  | nil => rfl
  | cons e rest ih =>
    rw [buildEntries, Compilation.result?_bind, List.map_cons, collect_cons]
    refine Option.bind_congr fun b _ => ?_
    rw [Compilation.result?_bind, ih]
    cases collect (rest.map (entryResult chords path)) <;> rfl

/-- What the entries of an object come to. -/
theorem result?_build (chords : ChordSource) (path : String) (entries : Object) :
    (build chords path entries).result? =
      (collect (entries.map (entryResult chords path))).map arrange := by
  rw [result?_build_eq, result?_buildEntries]

end Binding

namespace Document

/-- The field of a document for how the bindings are shown. -/
def appearanceField : String := "appearance"

/-- The field of an appearance for its title. -/
def titleField : String := "title"

/-- The title of an appearance that may be left out. -/
def optionalTitle (appearance : Option Value) : Option (Option String) :=
  Value.optionalText ((appearance.bind Value.object?).bind (Object.get? · titleField))

/-- The title of a document stands under two keys. -/
theorem lookup_title (d : Document) : d.lookup titlePath =
    ((d.root.get? appearanceField).bind Value.object?).bind (Object.get? · titleField) := by
  have hkeys : pathKeys titlePath = [appearanceField, titleField] := by decide
  rw [lookup, hkeys]
  rfl

/-- What a document comes to, in terms of what is read of it. -/
theorem result?_compile (d : Document) (chords : ChordSource) :
    (d.compile chords).result? =
      (optionalTitle (d.root.get? appearanceField)).bind fun title =>
        (Binding.optionalSiblings chords bindingsField (d.root.get? bindingsField)).map
          fun siblings => ⟨⟨some (title.getD defaultTitle)⟩, siblings.getD []⟩ := by
  have htitle : (if d.hasPath titlePath then Compilation.ofAccess (d.getText titlePath)
      else pure defaultTitle).result? =
      (optionalTitle (d.root.get? appearanceField)).map (·.getD defaultTitle) := by
    rw [optionalTitle, ← lookup_title]
    by_cases hpath : d.hasPath titlePath = true
    · rw [if_pos hpath, Compilation.result?_ofAccess, getText, Value.toOption_requireText,
        Value.optionalText_of_present hpath]
      cases (Value.optionalText (d.lookup titlePath)).join <;> rfl
    · rw [if_neg hpath, Value.optionalText_of_absent (Bool.not_eq_true _ ▸ hpath)]
      rfl
  have hbindings : (if d.hasPath bindingsField then do
        let entries ← Compilation.ofAccess (d.getObject bindingsField)
        Binding.build chords bindingsField entries
      else pure []).result? =
      (Binding.optionalSiblings chords bindingsField (d.root.get? bindingsField)).map
        (·.getD []) := by
    rw [← lookup_bindings]
    by_cases hpath : d.hasPath bindingsField = true
    · rw [if_pos hpath, Compilation.result?_bind, Compilation.result?_ofAccess, getObject,
        Value.toOption_requireObject, Binding.optionalSiblings_of_present chords _ hpath]
      cases (d.lookup bindingsField).bind Value.object? with
      | none => rfl
      | some entries =>
        rw [Option.bind_some, Option.bind_some]
        cases (Binding.build chords bindingsField entries).result? <;> rfl
    · rw [if_neg hpath, Binding.optionalSiblings_of_absent chords _ (Bool.not_eq_true _ ▸ hpath)]
      rfl
  rw [compile_eq, Compilation.result?_bind, htitle]
  cases optionalTitle (d.root.get? appearanceField) with
  | none => rfl
  | some title =>
    rw [Option.map_some, Option.bind_some, Option.bind_some, Compilation.result?_bind, hbindings]
    cases Binding.optionalSiblings chords bindingsField (d.root.get? bindingsField) <;> rfl

end Document

end LeaderKey
