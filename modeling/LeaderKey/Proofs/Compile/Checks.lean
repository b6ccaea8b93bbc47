import LeaderKey.Proofs.Compile.Entries
import LeaderKey.Proofs.Grammar.Keyed

/-!
# What compiling checks, and in which order

`Document.checks` lists what compiling demands of a document: of the title, of the root bindings,
and then of each entry, depth first in source order. `Check.fault?` says what is wrong where a check
fails. `compile_fault_iff` is the theorem that compiling fails with the fault of the first check
that fails, and only then, and that its path leads to the value at fault.
-/

namespace LeaderKey

/-! ## Checks -/

/-- Whether a value may stand where a kind is expected: any scalar may stand for a text. -/
def Kind.accepts (expected : Kind) (v : Value) : Bool :=
  if expected = .string then v.text?.isSome else v.kind == expected

/-- Something that compiling demands of a document. -/
inductive Check where
  /-- The key of an entry is not empty. -/
  | named (level : List String) (key : String)
  /-- A list of keys leads to a value that may stand where a kind is expected. Where none is
  required, there may be none or `null`. -/
  | value (keys : List String) (expected : Kind) (required : Bool)

/-- What is wrong if a check fails on a root object. -/
def Check.fault? (root : Object) : Check → Option CompileError
  | .named level key => if key = "" then some (.emptyKey (dotted (level ++ [key]))) else none
  | .value keys expected required =>
    match Value.present? (root.lookup keys) with
    | none => if required then some (.access (.missing (dotted keys))) else none
    | some v =>
      if expected.accepts v then none
      else some (.access (.wrongKind (dotted keys) expected v.kind))

/-- The checks of one entry, without those of its submenu. -/
def Entry.checks (e : Entry) : List Check :=
  [.named e.level e.key, .value e.keys .object true,
    .value (e.keys ++ [descriptionField]) .string true,
    .value (e.keys ++ [actionField]) .string false] ++
  if e.body.hasAction then [] else [.value (e.keys ++ [bindingsField]) .object false]

/-- The checks of a document, in order. -/
def Document.checks (d : Document) : List Check :=
  [.value ["appearance", "title"] .string false, .value [bindingsField] .object false] ++
  (Entry.examined [bindingsField] d.entries).flatMap Entry.checks

/-- A path in an error leads to what the error is about: for a missing value, to a place in an
object where there is none or `null`; for a wrong one, to a value of the kind found, which may not
stand there; for an empty key, to the entry under it. -/
def CompileError.Names (root : Object) : CompileError → Prop
  | .parse _ => False
  | .access (.missing path) =>
    ∃ level key o, path = dotted (level ++ [key]) ∧ root.lookup level = some (.object o) ∧
      (root.lookup (level ++ [key]) = none ∨ root.lookup (level ++ [key]) = some .null)
  | .access (.wrongKind path expected found) =>
    ∃ keys v, path = dotted keys ∧ root.lookup keys = some v ∧ v ≠ .null ∧ v.kind = found ∧
      expected.accepts v = false
  | .emptyKey path =>
    ∃ level v, path = dotted (level ++ [""]) ∧ root.lookup (level ++ [""]) = some v

/-! ## Faults of compilations -/

namespace Compilation

variable {α β : Type}

/-- What is wrong with a compilation that fails. -/
def fault? (x : Compilation α) : Option CompileError :=
  match x.outcome with
  | .ok _ => none
  | .error e => some e

/-- A compilation fails if it has a fault. -/
theorem fault?_eq_some_iff {x : Compilation α} {e : CompileError} :
    x.fault? = some e ↔ x.outcome = .error e := by
  unfold fault?
  cases x.outcome <;> simp

/-- A compilation in two steps has the fault of the first step, or of the second. -/
theorem fault?_bind {x : Compilation α} {f : α → Compilation β} {fault : Option CompileError}
    (h : ∀ a, x.outcome = .ok a → (f a).fault? = fault) :
    (x >>= f).fault? = x.fault?.or fault := by
  cases hx : x.outcome with
  | error e =>
    rw [bind_of_error hx, fault?_eq_some_iff.2 hx]
    rfl
  | ok a =>
    have hnone : x.fault? = none := by rw [fault?, hx]
    rw [bind_of_ok hx, hnone, Option.none_or, ← h a hx]
    rfl

/-- What is made of a result in the end adds no fault. -/
theorem fault?_bind_pure (x : Compilation α) (f : α → β) :
    (x >>= fun a => pure (f a)).fault? = x.fault? := by
  have hpure (a : α) : (pure (f a) : Compilation β).fault? = none := rfl
  rw [fault?_bind fun a _ => hpure a, Option.or_none]

/-- A step that may fail has the result of what it does. -/
theorem ofAccess_outcome_eq_ok {r : Except AccessError α} {a : α} :
    (ofAccess r).outcome = .ok a ↔ r = .ok a := by
  cases r <;> simp [ofAccess, Except.mapError]

end Compilation

/-! ## Checks of values -/

/-- Nothing but `null` counts as absent. -/
theorem Value.present?_eq_none {v : Option Value} :
    present? v = none ↔ v = none ∨ v = some .null := by
  unfold present? Option.filter
  cases v with
  | none => simp
  | some v => cases v <;> simp [isNull]

/-- A value that counts as present is not `null`. -/
theorem Value.present?_eq_some {v : Option Value} {w : Value} :
    present? v = some w ↔ v = some w ∧ w ≠ .null := by
  unfold present? Option.filter
  cases v with
  | none => simp
  | some v => cases v <;> simp [isNull] <;> rintro rfl <;> simp

namespace Check

variable {root : Object} {keys : List String}

/-- Where there is no value, something is wrong if one is required. -/
theorem fault?_of_absent (hv : Value.present? (root.lookup keys) = none) (expected : Kind)
    (required : Bool) : (Check.value keys expected required).fault? root =
      if required then some (.access (.missing (dotted keys))) else none := by
  simp only [fault?, hv]

/-- Where there is a value, something is wrong if it may not stand there. -/
theorem fault?_of_present {v : Value} (hv : Value.present? (root.lookup keys) = some v)
    (expected : Kind) (required : Bool) : (Check.value keys expected required).fault? root =
      if expected.accepts v then none
      else some (.access (.wrongKind (dotted keys) expected v.kind)) := by
  simp only [fault?, hv]

/-- Reading a required text checks that it is there. -/
theorem fault?_requireText :
    (Compilation.ofAccess (Value.requireText (root.lookup keys) (dotted keys))).fault? =
      (Check.value keys .string true).fault? root := by
  rw [Value.requireText]
  cases hv : Value.present? (root.lookup keys) with
  | none =>
    rw [fault?_of_absent hv]
    rfl
  | some v =>
    rw [fault?_of_present hv]
    cases v <;> rfl

/-- Reading a required object checks that it is there. -/
theorem fault?_requireObject :
    (Compilation.ofAccess (Value.requireObject (root.lookup keys) (dotted keys))).fault? =
      (Check.value keys .object true).fault? root := by
  rw [Value.requireObject]
  cases hv : Value.present? (root.lookup keys) with
  | none =>
    rw [fault?_of_absent hv]
    rfl
  | some v =>
    rw [fault?_of_present hv]
    cases v <;> rfl

/-- A value that is not required is checked only if it is there. -/
theorem fault?_optional (expected : Kind) :
    (Check.value keys expected false).fault? root =
      if (Value.present? (root.lookup keys)).isSome then
        (Check.value keys expected true).fault? root
      else none := by
  cases hv : Value.present? (root.lookup keys) with
  | none =>
    rw [fault?_of_absent hv]
    rfl
  | some v =>
    rw [fault?_of_present hv, fault?_of_present hv]
    rfl

/-- A required object is there if the check passes. -/
theorem object_of_fault?_eq_none (h : (Check.value keys .object true).fault? root = none) :
    ∃ o, root.lookup keys = some (.object o) := by
  cases hv : Value.present? (root.lookup keys) with
  | none =>
    rw [fault?_of_absent hv] at h
    cases h
  | some v =>
    rw [fault?_of_present hv] at h
    obtain ⟨hlookup, _⟩ := Value.present?_eq_some.1 hv
    cases v with
    | object o => exact ⟨o, hlookup⟩
    | _ => cases h

/-- The fault of a value names it, if what is required is required of an object. -/
theorem names_of_value {expected : Kind} {required : Bool} {e : CompileError}
    (h : (Check.value keys expected required).fault? root = some e)
    (hlevel : required = true →
      ∃ level key o, keys = level ++ [key] ∧ root.lookup level = some (.object o)) :
    e.Names root := by
  cases hv : Value.present? (root.lookup keys) with
  | none =>
    rw [fault?_of_absent hv] at h
    split_ifs at h with hrequired
    obtain ⟨level, key, o, rfl, ho⟩ := hlevel hrequired
    cases h
    exact ⟨level, key, o, rfl, ho, Value.present?_eq_none.1 hv⟩
  | some v =>
    rw [fault?_of_present hv] at h
    split_ifs at h with haccepts
    obtain ⟨hlookup, hnull⟩ := Value.present?_eq_some.1 hv
    cases h
    exact ⟨keys, v, rfl, hlookup, hnull, rfl, by simpa using haccepts⟩

end Check

/-! ## Where entries stand -/

/-- A longer list of keys leads one object further. -/
theorem Object.lookup_append {keys : List String} (h : keys ≠ []) (key : String) (o : Object) :
    o.lookup (keys ++ [key]) = ((o.lookup keys).bind Value.object?).bind (Object.get? · key) := by
  -- A look-up treats its last key apart, so there are three cases.
  induction keys generalizing o with
  | nil => contradiction
  | cons first rest ih =>
    cases rest with
    | nil => rfl
    | cons second rest =>
      simp only [List.cons_append, lookup]
      cases (o.get? first).bind Value.object? with
      | none => rfl
      | some inner => exact ih (by simp) inner

/-- A list of keys that leads to an object leads on to its values. -/
theorem Object.lookup_append_of_object {root o : Object} {keys : List String}
    (h : root.lookup keys = some (.object o)) (key : String) :
    root.lookup (keys ++ [key]) = o.get? key := by
  have hkeys : keys ≠ [] := by
    rintro rfl
    cases h
  rw [lookup_append hkeys, h]
  rfl

/-- A submenu is empty, or it is the object under the field `bindings`. -/
theorem Value.submenu_cases (body : Value) :
    body.submenu = [] ∨ ∃ fields : Object, body = .object fields ∧
      fields.get? bindingsField = some (.object body.submenu) := by
  unfold submenu
  split
  · rename_i fields
    split
    · exact Or.inl rfl
    · split
      · rename_i entries hentries
        exact Or.inr ⟨fields, rfl, hentries⟩
      · exact Or.inl rfl
  · exact Or.inl rfl

/-- The keys of an entry lead from a root object to the entry. -/
def Entry.Located (root : Object) (e : Entry) : Prop :=
  ∃ o : Object, root.lookup e.level = some (.object o) ∧ o.get? e.key = some e.body

/-- The keys of a located entry lead to its body. -/
theorem Entry.Located.lookup {root : Object} {e : Entry} (h : e.Located root) :
    root.lookup e.keys = some e.body := by
  obtain ⟨o, ho, hbody⟩ := h
  rw [Entry.keys, Object.lookup_append_of_object ho, hbody]

/-- In a keyed object, all entries that are examined are located. -/
theorem Entry.located_of_mem_examined {root o : Object} {level : List String} {entries : Object}
    (ho : root.lookup level = some (.object o))
    (hentries : ∀ entry ∈ entries, o.get? entry.1 = some entry.2 ∧ entry.2.Keyed) {e : Entry}
    (he : e ∈ examined level entries) : e.Located root := by
  induction level, entries using examined.induct generalizing o with
  | case1 level =>
    rw [examined] at he
    cases he
  | case2 level key body rest ihbody ihrest =>
    obtain ⟨⟨hbody, hkeyed⟩, hrest⟩ := List.forall_mem_cons.1 hentries
    rw [examined, List.mem_cons, List.mem_append] at he
    rcases he with rfl | hbelow | hafter
    · exact ⟨o, ho, hbody⟩
    · rcases body.submenu_cases with hnil | ⟨fields, hfields, hsubmenu⟩
      · rw [hnil, examined] at hbelow
        cases hbelow
      · -- The submenu is an object of its own, so it is keyed, and its level is two keys longer.
        have hlookup : root.lookup (level ++ [key] ++ [bindingsField]) =
            some (.object body.submenu) := by
          have hkey : root.lookup (level ++ [key]) = some (.object fields) := by
            rw [Object.lookup_append_of_object ho, hbody, hfields]
          rw [Object.lookup_append_of_object hkey, hsubmenu]
        have hinner : Object.Keyed body.submenu := by
          rw [hfields] at hkeyed
          exact Object.Keyed.value hkeyed (Object.mem_of_get? hsubmenu)
        rw [List.append_assoc] at hlookup
        exact ihbody hlookup
          (fun entry hentry => ⟨hinner.get?_eq_some_iff.2 hentry, hinner.value hentry⟩) hbelow
    · exact ihrest ho hrest hafter

/-! ## Faults of entries -/

/-- The first fault of a list is that of its head, or of the others. -/
theorem findSome?_cons_or {α β : Type} (f : α → Option β) (a : α) (l : List α) :
    (a :: l).findSome? f = (f a).or (l.findSome? f) := by
  rw [List.findSome?_cons]
  cases f a <;> rfl

/-- The first fault of lists in a row is that of the first list that has one. -/
theorem findSome?_flatMap {α β γ : Type} (f : β → Option γ) (g : α → List β) (l : List α) :
    (l.flatMap g).findSome? f = l.findSome? fun a => (g a).findSome? f := by
  induction l with
  | nil => rfl
  | cons a rest ih => rw [List.flatMap_cons, List.findSome?_append, findSome?_cons_or, ih]

/-- The fault of the first check of an entry that fails. -/
def Entry.fault? (root : Object) (e : Entry) : Option CompileError :=
  e.checks.findSome? (Check.fault? root)

/-- An entry has the faults of its checks, in order. -/
theorem Entry.fault?_eq (root : Object) (e : Entry) : e.fault? root =
    ((Check.named e.level e.key).fault? root).or
      (((Check.value e.keys .object true).fault? root).or
        (((Check.value (e.keys ++ [descriptionField]) .string true).fault? root).or
          (((Check.value (e.keys ++ [actionField]) .string false).fault? root).or
            (if e.body.hasAction then none
              else (Check.value (e.keys ++ [bindingsField]) .object false).fault? root)))) := by
  rw [Entry.fault?, Entry.checks, List.findSome?_append]
  simp only [findSome?_cons_or, List.findSome?_nil, Option.or_none, Option.or_assoc]
  cases e.body.hasAction with
  | true => rfl
  | false => simp only [Bool.false_eq_true, if_false, findSome?_cons_or, List.findSome?_nil,
      Option.or_none]

/-- Building no entries never fails. -/
theorem Binding.fault?_buildEntries_nil (chords : ChordSource) (path : String) :
    (buildEntries chords path []).fault? = none := by
  rw [buildEntries]
  rfl

/-- Building an entry fails with the first fault of the entry, or with that of its submenu. -/
theorem Binding.fault?_buildEntry {root : Object} {e : Entry} (he : e.Located root)
    (chords : ChordSource) :
    (buildEntry chords e.key e.path e.body).fault? = (e.fault? root).or
      (buildEntries chords (dotted (e.keys ++ [bindingsField])) e.body.submenu).fault? := by
  rw [buildEntry_eq, Entry.fault?_eq]
  cases hkey : e.key.toList with
  | nil =>
    have hempty : e.key = "" := String.toList_eq_nil_iff.1 hkey
    rw [Check.fault?, if_pos hempty]
    rfl
  | cons mnemonic tail =>
    have hne : e.key ≠ "" := by
      intro hempty
      rw [hempty] at hkey
      cases hkey
    rw [Check.fault?, if_neg hne, Option.none_or, Option.or_assoc]
    dsimp only
    rw [← he.lookup, Entry.path, ← Check.fault?_requireObject]
    refine Compilation.fault?_bind fun fields hfields => ?_
    rw [Compilation.ofAccess_outcome_eq_ok, Value.requireObject_eq_ok] at hfields
    have hbody : e.body = .object fields := Option.some.inj (he.lookup.symm.trans hfields)
    have hkeys : e.keys ≠ [] := by simp [Entry.keys]
    -- The fields of the entry are what the longer lists of keys lead to.
    have hfield (field : String) : fields.get? field = root.lookup (e.keys ++ [field]) :=
      (Object.lookup_append_of_object hfields field).symm
    rw [hfield, ← dotted_append hkeys, Option.or_assoc, ← Check.fault?_requireText]
    refine Compilation.fault?_bind fun description _ => ?_
    have hholds (field : String) : (Value.present? (root.lookup (e.keys ++ [field]))).isSome =
        fields.holds field := by
      rw [Object.holds, hfield]
    have haction : e.body.hasAction = fields.holds actionField := by rw [hbody]; rfl
    rw [Check.fault?_optional, Check.fault?_optional, hholds, hholds, haction, hbody]
    -- What the checks ask of a field is what decides the branch.
    split_ifs with hactions hbindings
    · rw [Value.submenu_of_action hactions, fault?_buildEntries_nil, Option.or_none,
        Option.or_none, hfield, ← dotted_append hkeys, ← Check.fault?_requireText]
      rw [Compilation.fault?_bind_pure]
    · rw [Option.none_or, hfield, ← dotted_append hkeys, ← Check.fault?_requireObject]
      refine Compilation.fault?_bind fun entries hentries => ?_
      rw [Compilation.ofAccess_outcome_eq_ok, Value.requireObject_eq_ok, ← hfield] at hentries
      rw [Value.submenu_of_bindings (by simpa using hactions) hentries]
      rw [Compilation.fault?_bind_pure]
    · rw [Value.submenu_of_not_holds (by simpa using hbindings), fault?_buildEntries_nil]
      rfl

/-- Building entries fails with the first fault of the entries that are examined. -/
theorem Binding.fault?_buildEntries {root : Object} {level : List String} (hlevel : level ≠ [])
    {entries : Object} (hlocated : ∀ e ∈ Entry.examined level entries, e.Located root)
    (chords : ChordSource) :
    (buildEntries chords (dotted level) entries).fault? =
      (Entry.examined level entries).findSome? (Entry.fault? root) := by
  induction level, entries using Entry.examined.induct with
  | case1 level => rw [fault?_buildEntries_nil, Entry.examined, List.findSome?_nil]
  | case2 level key body rest ihbody ihrest =>
    rw [Entry.examined, List.forall_mem_cons, List.forall_mem_append] at hlocated
    obtain ⟨hhead, hbelow, hafter⟩ := hlocated
    -- The head has its own faults and then those below it; the others come after both.
    have hentry : (buildEntry chords key (dotted (level ++ [key])) body).fault? =
        (Entry.fault? root ⟨level, key, body⟩).or
          (buildEntries chords (dotted (level ++ [key, bindingsField])) body.submenu).fault? := by
      have h := fault?_buildEntry hhead chords
      rwa [Entry.keys, List.append_assoc] at h
    rw [Entry.examined, findSome?_cons_or, List.findSome?_append, ← Option.or_assoc,
      ← ihbody (by simp) hbelow, ← ihrest hlevel hafter, ← hentry]
    rw [buildEntries, ← dotted_append hlevel]
    refine Compilation.fault?_bind fun b _ => ?_
    rw [Compilation.fault?_bind_pure]

/-! ## Faults of documents -/

/-- In a keyed document, all entries that are examined are located. -/
theorem Document.located {d : Document} (h : d.root.Keyed) {e : Entry}
    (he : e ∈ Entry.examined [bindingsField] d.entries) : e.Located d.root := by
  unfold entries at he
  split at he
  · rename_i o ho
    have ho' : Object.Keyed o := h.value (Object.mem_of_get? ho)
    have hlookup : d.root.lookup [bindingsField] = some (.object o) := ho
    exact Entry.located_of_mem_examined hlookup
      (fun entry hentry => ⟨ho'.get?_eq_some_iff.2 hentry, ho'.value hentry⟩) he
  · rw [Entry.examined] at he
    cases he

/-- Reading the title checks it. -/
theorem Document.fault?_title (d : Document) :
    (if d.hasPath titlePath then Compilation.ofAccess (d.getText titlePath)
      else pure defaultTitle).fault? =
      (Check.value ["appearance", "title"] .string false).fault? d.root := by
  have hlookup : d.lookup titlePath = d.root.lookup ["appearance", "title"] := by
    have hkeys : pathKeys titlePath = ["appearance", "title"] := by decide
    rw [lookup, hkeys]
  have hpath : titlePath = dotted ["appearance", "title"] := by decide
  rw [Check.fault?_optional, ← Check.fault?_requireText, hasPath, getText, hlookup, ← hpath]
  split_ifs <;> rfl

/-- Building the root bindings checks them, and then their entries. -/
theorem Document.fault?_bindings {d : Document} (h : d.root.Keyed) (chords : ChordSource) :
    (if d.hasPath bindingsField then do
        let entries ← Compilation.ofAccess (d.getObject bindingsField)
        Binding.build chords bindingsField entries
      else pure []).fault? =
      ((Check.value [bindingsField] .object false).fault? d.root).or
        ((Entry.examined [bindingsField] d.entries).findSome? (Entry.fault? d.root)) := by
  have hlookup : d.lookup bindingsField = d.root.lookup [bindingsField] := d.lookup_bindings
  have hpath : bindingsField = dotted [bindingsField] := by decide
  rw [← Binding.fault?_buildEntries (by simp) (fun e he => d.located h he) chords, ← hpath]
  rw [Check.fault?_optional, ← Check.fault?_requireObject, ← hlookup, ← hpath, ← hasPath,
    ← getObject]
  split_ifs with hbindings
  · refine Compilation.fault?_bind fun entries hentries => ?_
    rw [Compilation.ofAccess_outcome_eq_ok] at hentries
    rw [d.entries_of_object hentries, Binding.build]
    rw [Compilation.fault?_bind_pure]
  · rw [Bool.not_eq_true] at hbindings
    rw [d.entries_of_not_hasPath hbindings, Binding.fault?_buildEntries_nil]
    rfl

/-- Compiling a keyed document fails with the fault of its first check that fails. -/
theorem Document.fault?_compile {d : Document} (h : d.root.Keyed) (chords : ChordSource) :
    (d.compile chords).fault? = d.checks.findSome? (Check.fault? d.root) := by
  rw [checks, List.findSome?_append, findSome?_cons_or, findSome?_cons_or, List.findSome?_nil,
    Option.or_none, Option.or_assoc, findSome?_flatMap, ← fault?_title, compile_eq]
  refine Compilation.fault?_bind fun title _ => ?_
  rw [Compilation.fault?_bind_pure]
  exact fault?_bindings h chords

/-! ## Errors name what is wrong -/

/-- The fault of a located entry names what is wrong. -/
theorem Entry.names_of_fault? {root : Object} {entry : Entry} (hentry : entry.Located root)
    {e : CompileError} (h : entry.fault? root = some e) : e.Names root := by
  rw [Entry.fault?_eq] at h
  simp only [Option.or_eq_some_iff] at h
  -- One case for each check that may be the first to fail.
  rcases h with hkey | ⟨_, hbody | ⟨hobject, hdescription | ⟨_, haction | ⟨_, hbindings⟩⟩⟩⟩
  · rw [Check.fault?] at hkey
    split_ifs at hkey with hempty
    cases hkey
    have hlookup := hentry.lookup
    rw [Entry.keys, hempty] at hlookup
    rw [hempty]
    exact ⟨entry.level, entry.body, rfl, hlookup⟩
  · obtain ⟨o, ho, _⟩ := hentry
    exact Check.names_of_value hbody fun _ => ⟨entry.level, entry.key, o, rfl, ho⟩
  · -- The description is missing from an object, because the check of the body has passed.
    obtain ⟨fields, hfields⟩ := Check.object_of_fault?_eq_none hobject
    exact Check.names_of_value hdescription fun _ => ⟨entry.keys, _, fields, rfl, hfields⟩
  · exact Check.names_of_value haction nofun
  · split_ifs at hbindings
    exact Check.names_of_value hbindings nofun

/-- The fault of a keyed document names what is wrong. -/
theorem Document.names_of_fault? {d : Document} (h : d.root.Keyed) {e : CompileError}
    (he : d.checks.findSome? (Check.fault? d.root) = some e) : e.Names d.root := by
  rw [checks, List.findSome?_append, findSome?_cons_or, findSome?_cons_or, List.findSome?_nil,
    Option.or_none, Option.or_assoc, findSome?_flatMap] at he
  simp only [Option.or_eq_some_iff] at he
  rcases he with htitle | ⟨_, hbindings | ⟨_, hentries⟩⟩
  · exact Check.names_of_value htitle nofun
  · exact Check.names_of_value hbindings nofun
  · obtain ⟨before, entry, after, heq, hfault, _⟩ := List.findSome?_eq_some_iff.1 hentries
    have hmem : entry ∈ Entry.examined [bindingsField] d.entries := by
      rw [heq]
      exact List.mem_append_right _ List.mem_cons_self
    exact Entry.names_of_fault? (d.located h hmem) hfault

/-- A parsed document fails to compile exactly if one of its checks fails. It fails with the fault
of the first check that does, and the path in the error leads to what is wrong. -/
theorem compile_fault_iff {text : String} {d : Document} (h : Document.parse text = .ok d)
    (chords : ChordSource) :
    ((∃ e, (d.compile chords).outcome = .error e) ↔ ∃ c ∈ d.checks, c.fault? d.root ≠ none) ∧
    ∀ e, ((d.compile chords).outcome = .error e ↔
        ∃ before c after, d.checks = before ++ c :: after ∧ c.fault? d.root = some e ∧
          ∀ b ∈ before, b.fault? d.root = none) ∧
      ((d.compile chords).outcome = .error e → e.Names d.root) := by
  have hkeyed := Document.keyed_of_parse h
  have hfault (e : CompileError) : (d.compile chords).outcome = .error e ↔
      d.checks.findSome? (Check.fault? d.root) = some e := by
    rw [← Document.fault?_compile hkeyed chords, Compilation.fault?_eq_some_iff]
  refine ⟨?_, fun e => ⟨?_, ?_⟩⟩
  · simp only [hfault]
    rw [← Option.isSome_iff_exists, List.findSome?_isSome_iff]
    simp only [Option.isSome_iff_ne_none]
  · rw [hfault, List.findSome?_eq_some_iff]
  · rw [hfault]
    exact Document.names_of_fault? hkeyed

/-- A document with two mistakes, of which the nested one comes first. -/
def twoMistakes : Document :=
  ⟨[("bindings", .object [
    ("a", .object [("description", .string "Run"), ("bindings", .object [
      ("b", .object [("actionId", .string "Build")])])]),
    ("c", .number "1")])]⟩

/-- The error is about the nested mistake. -/
theorem compile_fault_twoMistakes :
    Document.parse ("bindings.a.description: Run\nbindings.a.bindings.b.actionId: Build\n" ++
      "bindings.c: 1") = .ok twoMistakes ∧
    (twoMistakes.compile .ofChar).outcome =
      .error (.access (.missing "bindings.a.bindings.b.description")) ∧
    (CompileError.access (.missing "bindings.a.bindings.b.description")).Names
      twoMistakes.root := by
  have hparse : Document.parse ("bindings.a.description: Run\n" ++
      "bindings.a.bindings.b.actionId: Build\nbindings.c: 1") = .ok twoMistakes := by
    decide +kernel
  have houtcome : (twoMistakes.compile .ofChar).outcome =
      .error (.access (.missing "bindings.a.bindings.b.description")) := by
    rfl
  obtain ⟨_, hfault⟩ := compile_fault_iff hparse .ofChar
  exact ⟨hparse, houtcome, (hfault _).2 houtcome⟩

end LeaderKey
