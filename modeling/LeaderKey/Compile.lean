import LeaderKey.Binding
import LeaderKey.Document

/-!
# Compiling a document

The `bindings` object of a document describes a tree of bindings. Each entry binds the first
character of its key. It must be an object with a `description`; an `actionId` makes it an action,
else `bindings` make it a group, and an entry with neither is dropped. Entries are examined in
source order, depth first, and the first mistake ends the compilation; only then are siblings put
in the order of their mnemonics. A compilation tells the entries it has dropped, in either case.
`buildChildren_eq` is the rule for a group's children in terms of the look-up of its field.
-/

namespace LeaderKey

/-- Why a config text does not compile. -/
inductive CompileError where
  /-- It is no config text. -/
  | parse (e : ParseError)
  /-- A value that must be there is missing or of the wrong kind. -/
  | access (e : AccessError)
  /-- The key of a binding is empty. -/
  | emptyKey (path : String)
  deriving DecidableEq, Repr

/-- The wording of a compile error. -/
def CompileError.message : CompileError → String
  | .parse e => e.message
  | .access e => e.message
  | .emptyKey path => s!"Binding key is empty at '{path}'"

/-- A compilation: the paths of the entries dropped on the way, and how it ended. -/
structure Compilation (α : Type) where
  /-- The dotted paths of dropped entries, in the order in which they were met. -/
  dropped : List String
  /-- The result, or the first mistake. -/
  outcome : Except CompileError α

namespace Compilation

/-- A compilation that fails. -/
def fail {α : Type} (e : CompileError) : Compilation α := ⟨[], .error e⟩

/-- A compilation that drops an entry. -/
def drop (path : String) : Compilation Unit := ⟨[path], .ok ()⟩

/-- A step that may fail. -/
def ofAccess {α : Type} (r : Except AccessError α) : Compilation α := ⟨[], r.mapError .access⟩

/-- Goes on with the result of a compilation, if it has one. -/
def bind {α β : Type} (x : Compilation α) (f : α → Compilation β) : Compilation β :=
  match x.outcome with
  | .ok a => ⟨x.dropped ++ (f a).dropped, (f a).outcome⟩
  | .error e => ⟨x.dropped, .error e⟩

instance : Monad Compilation where
  pure a := ⟨[], .ok a⟩
  bind := bind

end Compilation

/-- The fields of a binding entry, and the name of the object that holds the root entries. -/
def bindingsField : String := "bindings"

/-- The field that describes a binding. -/
def descriptionField : String := "description"

/-- The field that names a binding's action. -/
def actionField : String := "actionId"

/-- A path one key longer. -/
def subpath (path key : String) : String := path ++ "." ++ key

namespace Binding

/-- Sorts siblings by their mnemonics. -/
def arrange (siblings : List Binding) : List Binding := Mnemonic.sort key siblings

mutual

/-- Builds the bindings of some entries, in source order. -/
def buildEntries (chords : ChordSource) (path : String) :
    List (String × Value) → Compilation (List Binding)
  | [] => pure []
  | (key, body) :: rest => do
    let b ← buildEntry chords key (subpath path key) body
    let bs ← buildEntries chords path rest
    pure (b.toList ++ bs)

/-- Builds the binding of one entry, unless the entry is dropped. -/
def buildEntry (chords : ChordSource) (key path : String) (body : Value) :
    Compilation (Option Binding) :=
  match key.toList with
  | [] => .fail (.emptyKey path)
  | mnemonic :: _ =>
    match body with
    | .object fields => do
      let description ← .ofAccess <|
        Value.requireText (Object.get? fields descriptionField) (subpath path descriptionField)
      let label : Label := ⟨mnemonic, chords mnemonic, description⟩
      if (Value.present? (Object.get? fields actionField)).isSome then
        let actionId ← .ofAccess <|
          Value.requireText (Object.get? fields actionField) (subpath path actionField)
        pure (some (.action label actionId))
      else if (Value.present? (Object.get? fields bindingsField)).isSome then
        let children ← buildChildren chords (subpath path bindingsField) fields
        pure (some (.group label (arrange children)))
      else
        Compilation.drop path
        pure none
    | other => do
      let _ ← .ofAccess (Value.requireObject (some other) path)
      pure none

/-- Builds the bindings under the field `bindings` of an entry, in source order. -/
def buildChildren (chords : ChordSource) (path : String) :
    List (String × Value) → Compilation (List Binding)
  | [] => .fail (.access (.missing path))
  | (key, value) :: rest =>
    if key = bindingsField then
      match value with
      | .object entries => buildEntries chords path entries
      | other => do
        let _ ← .ofAccess (Value.requireObject (some other) path)
        pure []
    else buildChildren chords path rest

end

/-- The bindings of a group are those of the object under its field `bindings`. -/
theorem buildChildren_eq (chords : ChordSource) (path : String) (fields : Object) :
    buildChildren chords path fields = (do
      let entries ← .ofAccess (Value.requireObject (Object.get? fields bindingsField) path)
      buildEntries chords path entries) := by
  induction fields with
  | nil => rfl
  | cons field rest ih =>
    obtain ⟨key, value⟩ := field
    rw [buildChildren.eq_def, Object.get?, List.lookup_cons]
    by_cases h : key = bindingsField
    · rw [beq_iff_eq.2 h.symm]
      dsimp only
      rw [if_pos h]
      cases value <;> rfl
    · rw [beq_eq_false_iff_ne.2 (Ne.symm h)]
      dsimp only
      rw [if_neg h]
      exact ih

/-- Builds one level of bindings from its entries. -/
def build (chords : ChordSource) (path : String) (entries : Object) :
    Compilation (List Binding) := do
  return arrange (← buildEntries chords path entries)

end Binding

/-- The path of the title. -/
def titlePath : String := "appearance.title"

/-- Compiles a document. -/
def Document.compile (d : Document) (chords : ChordSource) : Compilation Config := do
  let title ←
    if d.hasPath titlePath then .ofAccess (d.getText titlePath) else pure defaultTitle
  let bindings ←
    if d.hasPath bindingsField then do
      let entries ← .ofAccess (d.getObject bindingsField)
      Binding.build chords bindingsField entries
    else pure []
  pure ⟨⟨some title⟩, bindings⟩

/-- Compiles a config text. -/
def compileText (text : String) (chords : ChordSource) : Compilation Config :=
  match Document.parse text with
  | .ok d => d.compile chords
  | .error e => .fail (.parse e)

end LeaderKey
