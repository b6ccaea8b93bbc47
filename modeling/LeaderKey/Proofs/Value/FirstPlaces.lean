import LeaderKey.Proofs.Grammar.Keyed
import LeaderKey.Proofs.Value.Merge
import Mathlib.Data.Finset.Card

/-!
# Keys keep the places where they first appeared

What can be made by putting values into objects is exactly what holds no key twice
(`Value.built_iff_keyed`). A run of changes leaves the keys of an object in the order in which the
changes first name them, behind the keys that were there: whatever a change replaces or merges, it
moves no key. `Object.keys_in_first_places` says this for all runs, with what it means for the number
of entries and for looking a key up.
-/

namespace LeaderKey

/-! ## What is keyed can be made -/

/-- Inserting what can be made, entry by entry, makes an object. -/
theorem Object.Built.foldl_insert {o : Object} (ho : o.Built) {entries : List (String × Value)}
    (h : ∀ e ∈ entries, e.2.Built) :
    Object.Built (entries.foldl (fun o e => o.insert e.1 e.2) o) := by
  induction entries generalizing o with
  | nil => exact ho
  | cons e rest ih =>
    have hfirst : Object.Built (o.insert e.1 e.2) := .insert ho e.1 (h e List.mem_cons_self)
    exact ih hfirst fun e' he' => h e' (List.mem_cons_of_mem _ he')

/-- What is keyed can be made: an object, by inserting its entries into the empty one. -/
theorem Value.Keyed.built {v : Value} (h : v.Keyed) : v.Built := by
  induction h with
  | null => exact .null
  | boolean b => exact .boolean b
  | number spelling => exact .number spelling
  | string text => exact .string text
  | list _ ih => exact .list ih
  | @object entries hnodup _ ih =>
    have hself : entries.foldl (fun o e => Object.insert o e.1 e.2) [] = entries := by
      rw [← Object.merge_eq_foldl, Object.merge_nil hnodup]
    rw [← hself]
    exact Object.Built.foldl_insert .empty ih

/-- What can be made is exactly what holds no key twice. -/
theorem Value.built_iff_keyed {v : Value} : v.Built ↔ v.Keyed := ⟨Built.keyed, Keyed.built⟩

namespace Object

/-! ## Entries of a key -/

/-- Where keys are distinct, a look-up finds the only entry of a key, if there is one. -/
theorem filter_key {o : Object} (hnodup : o.keys.Nodup) (key : String) :
    o.filter (·.1 == key) = ((o.get? key).map (key, ·)).toList := by
  induction o with
  | nil => rfl
  | cons entry rest ih =>
    obtain ⟨k, v⟩ := entry
    rw [keys_cons, List.nodup_cons] at hnodup
    rw [get?_cons]
    by_cases hk : key = k
    · subst hk
      have hrest : get? rest key = none := get?_eq_none_iff.2 hnodup.1
      rw [List.filter_cons_of_pos (by simp), ih hnodup.2, hrest, if_pos rfl]
      rfl
    · rw [List.filter_cons_of_neg (by simpa using Ne.symm hk), ih hnodup.2, if_neg hk]

/-! ## Names in the order of their first appearance -/

/-- A name at the end of some names is new or changes nothing. -/
theorem eraseDups_concat (names : List String) (name : String) :
    (names ++ [name]).eraseDups =
      if name ∈ names.eraseDups then names.eraseDups else names.eraseDups ++ [name] := by
  rw [List.eraseDups_append, List.cons_removeAll]
  by_cases hname : name ∈ names
  · rw [if_pos (List.mem_eraseDups.2 hname), if_neg (by simpa using hname)]
    simp
  · rw [if_neg (fun h => hname (List.mem_eraseDups.1 h)), if_pos (by simpa using hname)]
    simp [List.eraseDups_cons]

/-- Distinct names are all there once. -/
theorem eraseDups_of_nodup {names : List String} (h : names.Nodup) : names.eraseDups = names := by
  induction names with
  | nil => rfl
  | cons name rest ih =>
    rw [List.nodup_cons] at h
    have hrest : rest.filter (fun other => !other == name) = rest := by
      refine List.filter_eq_self.2 fun other hother => ?_
      have hne : other ≠ name := fun heq => h.1 (heq ▸ hother)
      simpa using hne
    rw [List.eraseDups_cons, hrest, ih h.2]

/-! ## Changes -/

/-- A change of an object. -/
inductive Change where
  /-- A value is put under a key. -/
  | insert (key : String) (value : Value)
  /-- A value is put under a path of keys. -/
  | insertPath (path : List String) (value : Value)
  /-- Another object is merged in. -/
  | merge (new : Object)

namespace Change

/-- The object after a change. -/
def apply (o : Object) : Change → Object
  | .insert key value => o.insert key value
  | .insertPath path value => o.insertPath path value
  | .merge new => Object.merge o new

/-- The keys of the object itself that a change names: of a path, the first segment. -/
def names : Change → List String
  | .insert key _ => [key]
  | .insertPath path _ => path.take 1
  | .merge new => new.keys

end Change

/-- The object after a run of changes. -/
def changed (o : Object) (changes : List Change) : Object := changes.foldl Change.apply o

variable {o : Object} {names : List String}

/-- After one more insertion, the keys are in the order in which they were first named. -/
theorem keys_insert_of_eq (h : o.keys = names.eraseDups) (key : String) (value : Value) :
    (o.insert key value).keys = (names ++ [key]).eraseDups := by
  rw [Object.insert, keys_alter, h, eraseDups_concat]

/-- After merging, the keys are in the order in which they were first named. -/
theorem keys_merge_of_eq (h : o.keys = names.eraseDups) (new : List (String × Value)) :
    (Object.merge o new).keys = (names ++ keys new).eraseDups := by
  rw [merge_eq_foldl]
  induction new generalizing o names with
  | nil => simpa [keys] using h
  | cons e rest ih =>
    rw [List.foldl_cons, ih (keys_insert_of_eq h e.1 e.2), keys_cons, List.append_assoc,
      List.singleton_append]

/-- After one more change, the keys are in the order in which they were first named. -/
theorem keys_apply_of_eq (h : o.keys = names.eraseDups) (change : Change) :
    (change.apply o).keys = (names ++ change.names).eraseDups := by
  cases change with
  | insert key value => exact keys_insert_of_eq h key value
  | insertPath path value =>
    cases path with
    | nil =>
      show o.keys = (names ++ []).eraseDups
      rw [List.append_nil, h]
    | cons key rest => exact keys_insert_of_eq h key (nest rest value)
  | merge new => exact keys_merge_of_eq h new

/-- After a run of changes, the keys are in the order in which they were first named. -/
theorem keys_changed_of_eq (h : o.keys = names.eraseDups) (changes : List Change) :
    (o.changed changes).keys = (names ++ changes.flatMap Change.names).eraseDups := by
  -- The names so far grow with each change, and with them the keys.
  induction changes generalizing o names with
  | nil =>
    show o.keys = (names ++ []).eraseDups
    rw [List.append_nil, h]
  | cons change rest ih =>
    have hrest := ih (keys_apply_of_eq h change)
    rwa [List.append_assoc, ← List.flatMap_cons] at hrest

/-- Names in the order of their first appearance are distinct. -/
theorem nodup_eraseDups (names : List String) : names.eraseDups.Nodup := by
  induction names using List.reverseRecOn with
  | nil => exact List.nodup_nil
  | append_singleton names name ih =>
    rw [eraseDups_concat]
    split
    · exact ih
    · rename_i hname
      rw [← List.concat_eq_append]
      exact ih.concat hname

/-- What can be made holds no key twice, at any depth and inside lists too, and nothing else does;
the root of every parsed document can be made. However an object that can be made is changed, its
keys are those it had and then those that the changes name, each in the place where it first appears;
there are as many entries as distinct names, and a look-up finds the only entry of a key. -/
theorem keys_in_first_places :
    (∀ v : Value, v.Built ↔ v.Keyed) ∧
    (∀ text d, Document.parse text = .ok d → d.root.Built) ∧
    ∀ o : Object, o.Built → ∀ changes : List Change,
      (o.changed changes).keys = (o.keys ++ changes.flatMap Change.names).eraseDups ∧
      (o.changed changes).length = (o.keys ++ changes.flatMap Change.names).toFinset.card ∧
      ∀ key, (o.changed changes).filter (·.1 == key) =
        (((o.changed changes).get? key).map (key, ·)).toList := by
  refine ⟨fun _ => Value.built_iff_keyed, fun _ _ h => (Document.keyed_of_parse h).built, ?_⟩
  intro o ho changes
  have hstart : o.keys = o.keys.eraseDups := (eraseDups_of_nodup ho.keyed.nodup).symm
  have hkeys := keys_changed_of_eq hstart changes
  generalize o.keys ++ changes.flatMap Change.names = names at hkeys ⊢
  have hnodup : (o.changed changes).keys.Nodup := hkeys ▸ nodup_eraseDups names
  refine ⟨hkeys, ?_, filter_key hnodup⟩
  have hset : names.toFinset = (o.changed changes).keys.toFinset := by
    ext name
    rw [hkeys, List.mem_toFinset, List.mem_toFinset, List.mem_eraseDups]
  rw [hset, List.toFinset_card_of_nodup hnodup, keys, List.length_map]

/-- An object under one key and a list under another. -/
def bound : Object := [("b", .object [("x", .number "1")]), ("a", .list [.object [("k", .null)]])]

/-- Changes of it that add keys, replace a list, put a value beside one under a path, and merge. -/
def rebinding : List Change :=
  [.insertPath ["c"] (.boolean true), .insert "a" (.string "2"), .insertPath ["b", "y"] .null,
    .insertPath [] .null, .merge [("d", .null), ("c", .object [])]]

/-- The keys stay where they are, and the new ones come behind them once each. -/
theorem keys_in_first_places_rebinding :
    bound.Built ∧ (bound.changed rebinding).keys = ["b", "a", "c", "d"] ∧
      (bound.changed rebinding).length = 4 ∧
      (bound.changed rebinding).filter (·.1 == "b") =
        [("b", .object [("x", .number "1"), ("y", .null)])] := by
  have hlist : (Value.list [.object [("k", .null)]]).Built := by
    refine .list fun v hv => ?_
    rw [List.mem_singleton.1 hv]
    exact .insert .empty "k" .null
  have hbuilt : bound.Built :=
    .insert (.insert .empty "b" (.insert .empty "x" (.number "1"))) "a" hlist
  obtain ⟨hkeys, hlength, hentry⟩ := keys_in_first_places.2.2 bound hbuilt rebinding
  exact ⟨hbuilt, hkeys.trans (by decide), hlength.trans (by decide), (hentry "b").trans (by decide)⟩

end Object

end LeaderKey
