import LeaderKey.Compile
import LeaderKey.Proofs.Value.Keyed

/-!
# What compiling makes of one entry

Compilations are a lawful monad; `bind_eq_ok` takes one apart that succeeds. `buildEntry_eq` is the
rule for one entry in terms of the look-ups of its fields, and `built_of_buildEntry` says all that an
entry can come out as: an action, a group or nothing. `Value.submenu` are the entries that an entry
leads to, and `Entry.examined` lists all entries that compiling examines, depth first; its induction
principle is the one for everything that recurses like compiling. `Document.compile_eq` is the rule
for a document.
-/

namespace LeaderKey

/-! ## Compilations -/

namespace Compilation

variable {α β : Type}

/-- After a success, the rest goes on with its result. -/
theorem bind_of_ok {x : Compilation α} {a : α} (h : x.outcome = .ok a) (f : α → Compilation β) :
    x >>= f = ⟨x.dropped ++ (f a).dropped, (f a).outcome⟩ := by
  obtain ⟨dropped, outcome⟩ := x
  cases h
  rfl

/-- After a failure, nothing goes on. -/
theorem bind_of_error {x : Compilation α} {e : CompileError} (h : x.outcome = .error e)
    (f : α → Compilation β) : x >>= f = ⟨x.dropped, .error e⟩ := by
  obtain ⟨dropped, outcome⟩ := x
  cases h
  rfl

instance : LawfulMonad Compilation := by
  refine LawfulMonad.mk' _ ?_ ?_ ?_
  · rintro α ⟨dropped, outcome⟩
    cases outcome with
    | ok a => simp [Functor.map, bind]
    | error e => rfl
  · intro α β a f
    rfl
  · rintro α β γ ⟨dropped, outcome⟩ f g
    cases outcome with
    | error e => rfl
    | ok a =>
      cases h : (f a).outcome with
      | ok b => simp [Bind.bind, bind, h]
      | error e => simp [Bind.bind, bind, h]

/-- A compilation in two steps succeeds if both steps do, and drops what they drop. -/
theorem bind_eq_ok {x : Compilation α} {f : α → Compilation β} {dropped : List String} {b : β} :
    x >>= f = ⟨dropped, .ok b⟩ ↔
      ∃ a first second, x = ⟨first, .ok a⟩ ∧ f a = ⟨second, .ok b⟩ ∧ dropped = first ++ second := by
  obtain ⟨first, outcome⟩ := x
  cases outcome with
  | error e => simp [bind_of_error]
  | ok a =>
    rw [bind_of_ok rfl]
    constructor
    · intro h
      injection h with hdropped houtcome
      exact ⟨a, first, (f a).dropped, rfl, by rw [← houtcome], hdropped.symm⟩
    · rintro ⟨a', first', second, h, hf, rfl⟩
      cases h
      rw [hf]

/-- Nothing is dropped where nothing is done. -/
theorem pure_eq_ok {a b : α} {dropped : List String} :
    (pure a : Compilation α) = ⟨dropped, .ok b⟩ ↔ dropped = [] ∧ a = b := by
  simp [pure, eq_comm]

/-- A step that may fail drops nothing. -/
theorem ofAccess_bind_eq_ok {r : Except AccessError α} {f : α → Compilation β}
    {dropped : List String} {b : β} :
    ofAccess r >>= f = ⟨dropped, .ok b⟩ ↔ ∃ a, r = .ok a ∧ f a = ⟨dropped, .ok b⟩ := by
  cases r with
  | error e => simp [ofAccess, Except.mapError, Bind.bind, bind]
  | ok a =>
    have hbind : ofAccess (.ok a) >>= f = f a := rfl
    simp [hbind]

end Compilation

/-! ## Fields -/

/-- Whether there is a value other than `null` under a key. -/
def Object.holds (o : Object) (key : String) : Bool := (Value.present? (o.get? key)).isSome

/-- A key with a text holds a value. -/
theorem Object.holds_of_text {o : Object} {key text : String}
    (h : (o.get? key).bind Value.text? = some text) : o.holds key = true := by
  obtain ⟨v, hv, htext⟩ := Option.bind_eq_some_iff.1 h
  rw [holds, hv]
  cases v with
  | null => cases htext
  | _ => rfl

/-- A key with an object holds a value. -/
theorem Object.holds_of_object {o entries : Object} {key : String}
    (h : o.get? key = some (.object entries)) : o.holds key = true := by
  rw [holds, h]
  rfl

/-- What a required text comes to. -/
theorem Value.requireText_eq_ok {v : Option Value} {path text : String} :
    requireText v path = .ok text ↔ v.bind Value.text? = some text := by
  unfold requireText present? Option.filter
  -- `null` has no text either, so it need not be told apart from other values without one.
  cases v with
  | none => simp
  | some v => cases v <;> simp [isNull, text?]

/-- What a required object comes to. -/
theorem Value.requireObject_eq_ok {v : Option Value} {path : String} {entries : Object} :
    requireObject v path = .ok entries ↔ v = some (.object entries) := by
  unfold requireObject present? Option.filter
  cases v with
  | none => simp
  | some v => cases v <;> simp [isNull, object?]

/-- What is under a key is smaller than the object. -/
theorem Object.sizeOf_lt_of_get? {o : Object} {key : String} {v : Value}
    (h : o.get? key = some v) : sizeOf v < sizeOf o := by
  have hentry := List.sizeOf_lt_of_mem (mem_of_get? h)
  rw [Prod.mk.sizeOf_spec] at hentry
  omega

/-! ## Submenus -/

/-- Whether an entry has an action. -/
def Value.hasAction : Value → Bool
  | .object fields => Object.holds fields actionField
  | _ => false

/-- Whether an entry makes a binding: it has an action or bindings. -/
def Value.isBinding : Value → Bool
  | .object fields => Object.holds fields actionField || Object.holds fields bindingsField
  | _ => false

/-- The entries that an entry leads to: those of the object under its field `bindings`, unless it
has an action. -/
def Value.submenu : Value → Object
  | .object fields =>
    if Object.holds fields actionField then []
    else
      match Object.get? fields bindingsField with
      | some (.object entries) => entries
      | _ => []
  | _ => []

/-- An entry with an action leads nowhere. -/
theorem Value.submenu_of_action {fields : Object} (h : fields.holds actionField = true) :
    (Value.object fields).submenu = [] := by
  simp [submenu, h]

/-- An entry without an action leads to the object under its field `bindings`. -/
theorem Value.submenu_of_bindings {fields entries : Object}
    (haction : fields.holds actionField = false)
    (hentries : fields.get? bindingsField = some (.object entries)) :
    (Value.object fields).submenu = entries := by
  simp [submenu, haction, hentries]

/-- An entry without bindings leads nowhere. -/
theorem Value.submenu_of_not_holds {fields : Object} (h : fields.holds bindingsField = false) :
    (Value.object fields).submenu = [] := by
  simp only [submenu]
  split
  · rfl
  · split
    · rename_i entries hentries
      rw [Object.holds_of_object hentries] at h
      cases h
    · rfl

/-- A submenu is no larger than what leads to it. -/
theorem Value.sizeOf_submenu_le (body : Value) : sizeOf body.submenu ≤ sizeOf body := by
  unfold submenu
  split
  · rename_i fields
    split
    · simp
    · split
      · rename_i entries h
        have := Object.sizeOf_lt_of_get? h
        simp only [object.sizeOf_spec] at this ⊢
        omega
      · simp
  · cases body <;> simp

/-- The dotted path of a list of keys. -/
def dotted (keys : List String) : String := ".".intercalate keys

/-- A longer list of keys has a longer path. -/
theorem dotted_append {keys : List String} (h : keys ≠ []) (key : String) :
    dotted (keys ++ [key]) = subpath (dotted keys) key := by
  rw [dotted, String.intercalate_append_of_ne_nil h (by simp), String.intercalate_singleton]
  rfl

/-- An entry of a config, and where it stands. -/
structure Entry where
  /-- The keys that lead from the root to the object in which it stands. -/
  level : List String
  /-- Its key in that object. -/
  key : String
  /-- What is under the key. -/
  body : Value

namespace Entry

/-- The keys that lead from the root to the entry. -/
def keys (e : Entry) : List String := e.level ++ [e.key]

/-- The dotted path of the entry. -/
def path (e : Entry) : String := dotted e.keys

/-- Whether the entry is left out. -/
def isDropped (e : Entry) : Bool := !e.body.isBinding

/-- The entries of an object and of all submenus, depth first in source order. -/
def examined (level : List String) : List (String × Value) → List Entry
  | [] => []
  | (key, body) :: rest =>
    ⟨level, key, body⟩ ::
      (examined (level ++ [key, bindingsField]) body.submenu ++ examined level rest)
termination_by entries => sizeOf entries
decreasing_by
  -- A submenu is part of the body, and the body of the list.
  · have := Value.sizeOf_submenu_le body
    simp only [List.cons.sizeOf_spec, Prod.mk.sizeOf_spec]
    omega
  · simp only [List.cons.sizeOf_spec]
    omega

end Entry

/-! ## One entry -/

/-- The label of an entry: the first character of its key, the chord of that character, and the
description as text. -/
structure Label.Fits (chords : ChordSource) (key : String) (fields : Object)
    (label : Label) : Prop where
  key : key.toList.head? = some label.key
  chord : label.chord = chords label.key
  description : (fields.get? descriptionField).bind Value.text? = some label.description

namespace Binding

/-- The binding of an entry, in terms of its fields. -/
theorem buildEntry_eq (chords : ChordSource) (key path : String) (body : Value) :
    buildEntry chords key path body = (
      match key.toList with
      | [] => .fail (.emptyKey path)
      | mnemonic :: _ => do
        let fields ← .ofAccess (Value.requireObject (some body) path)
        let description ← .ofAccess <|
          Value.requireText (Object.get? fields descriptionField) (subpath path descriptionField)
        if Object.holds fields actionField then do
          let actionId ← .ofAccess <|
            Value.requireText (Object.get? fields actionField) (subpath path actionField)
          pure (some (.action ⟨mnemonic, chords mnemonic, description⟩ actionId))
        else if Object.holds fields bindingsField then do
          let entries ← .ofAccess <|
            Value.requireObject (Object.get? fields bindingsField) (subpath path bindingsField)
          let children ← buildEntries chords (subpath path bindingsField) entries
          pure (some (.group ⟨mnemonic, chords mnemonic, description⟩ (arrange children)))
        else do
          Compilation.drop path
          pure none) := by
  rw [buildEntry.eq_def]
  cases key.toList with
  | nil => rfl
  | cons mnemonic _ =>
    cases body with
    | object fields =>
      dsimp only
      rw [buildChildren_eq]
      simp only [bind_assoc]
      rfl
    | _ => rfl

/-- How an entry comes out if nothing is wrong with it, and what is dropped on the way. -/
inductive Built (chords : ChordSource) (key path : String) :
    Value → Option Binding → List String → Prop
  /-- An entry with an action is an action, whatever else it has. -/
  | action {fields : Object} {label : Label} {actionId : String}
      (hlabel : label.Fits chords key fields)
      (haction : (fields.get? actionField).bind Value.text? = some actionId) :
      Built chords key path (.object fields) (some (.action label actionId)) []
  /-- An entry with bindings and no action is a group of what these are built into. -/
  | group {fields entries : Object} {label : Label} {children : List Binding}
      {dropped : List String} (hlabel : label.Fits chords key fields)
      (haction : fields.holds actionField = false)
      (hentries : fields.get? bindingsField = some (.object entries))
      (hchildren : buildEntries chords (subpath path bindingsField) entries =
        ⟨dropped, .ok children⟩) :
      Built chords key path (.object fields) (some (.group label (arrange children))) dropped
  /-- An entry with neither is dropped. -/
  | dropped {fields : Object} (haction : fields.holds actionField = false)
      (hbindings : fields.holds bindingsField = false) :
      Built chords key path (.object fields) none [path]

/-- An entry that compiles comes out in one of these ways. -/
theorem built_of_buildEntry {chords : ChordSource} {key path : String} {body : Value}
    {dropped : List String} {b : Option Binding}
    (h : buildEntry chords key path body = ⟨dropped, .ok b⟩) :
    Built chords key path body b dropped := by
  rw [buildEntry_eq] at h
  cases hkey : key.toList with
  | nil =>
    rw [hkey] at h
    cases h
  | cons mnemonic tail =>
    rw [hkey] at h
    dsimp only at h
    rw [Compilation.ofAccess_bind_eq_ok] at h
    obtain ⟨fields, hfields, h⟩ := h
    rw [Compilation.ofAccess_bind_eq_ok] at h
    obtain ⟨description, hdescription, h⟩ := h
    obtain rfl : body = .object fields := by
      simpa using Value.requireObject_eq_ok.1 hfields
    have hlabel : Label.Fits chords key fields ⟨mnemonic, chords mnemonic, description⟩ :=
      ⟨by rw [hkey]; rfl, rfl, Value.requireText_eq_ok.1 hdescription⟩
    -- An action hides bindings, and only without both the entry is dropped.
    split at h
    · rw [Compilation.ofAccess_bind_eq_ok] at h
      obtain ⟨actionId, haction, h⟩ := h
      obtain ⟨rfl, rfl⟩ := Compilation.pure_eq_ok.1 h
      exact .action hlabel (Value.requireText_eq_ok.1 haction)
    · rename_i haction
      rw [Bool.not_eq_true] at haction
      split at h
      · rw [Compilation.ofAccess_bind_eq_ok] at h
        obtain ⟨entries, hentries, h⟩ := h
        rw [Compilation.bind_eq_ok] at h
        obtain ⟨children, first, second, hchildren, h, rfl⟩ := h
        obtain ⟨rfl, rfl⟩ := Compilation.pure_eq_ok.1 h
        rw [List.append_nil]
        exact .group hlabel haction (Value.requireObject_eq_ok.1 hentries) hchildren
      · rename_i hbindings
        rw [Bool.not_eq_true] at hbindings
        cases h
        exact .dropped haction hbindings

end Binding

/-! ## The root -/

namespace Document

/-- The root entries of a document: none unless its root bindings are an object. -/
def entries (d : Document) : Object :=
  match d.root.get? bindingsField with
  | some (.object entries) => entries
  | _ => []

/-- The path `bindings` is a single key. -/
theorem lookup_bindings (d : Document) : d.lookup bindingsField = d.root.get? bindingsField := by
  have hkeys : pathKeys bindingsField = [bindingsField] := by decide
  rw [lookup, hkeys]
  rfl

/-- The root entries are those of the object under `bindings`. -/
theorem entries_of_object {d : Document} {o : Object} (h : d.getObject bindingsField = .ok o) :
    d.entries = o := by
  rw [getObject, lookup_bindings, Value.requireObject_eq_ok] at h
  rw [entries, h]

/-- Without `bindings` there are no root entries. -/
theorem entries_of_not_hasPath {d : Document} (h : d.hasPath bindingsField = false) :
    d.entries = [] := by
  rw [hasPath, lookup_bindings] at h
  rw [entries]
  split
  · rename_i o ho
    rw [ho] at h
    cases h
  · rfl

/-- Compiling a document, one step after the other: its title, then its bindings. -/
theorem compile_eq (d : Document) (chords : ChordSource) :
    d.compile chords = (do
      let title ← (if d.hasPath titlePath then Compilation.ofAccess (d.getText titlePath)
        else pure defaultTitle)
      let bindings ← (if d.hasPath bindingsField then do
          let entries ← Compilation.ofAccess (d.getObject bindingsField)
          Binding.build chords bindingsField entries
        else pure [])
      pure ⟨⟨some title⟩, bindings⟩) := by
  rw [compile]
  split_ifs <;> simp only [bind_assoc, pure_bind]

end Document

end LeaderKey
