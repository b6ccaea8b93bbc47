import LeaderKey.Proofs.Value.Keyed

/-!
# What merging means, path by path

`Object.merge` is defined by what it does to one entry after another. Seen from the paths that lead
through an object, the second operand decides: where it has an object, the objects on both sides
merge; where it has another value, that value stands; and where it says nothing, the first operand
remains, unless something of the second one is in the way (`Object.Blocks`). `merge_path_by_path`
puts these together with the order of the keys, from which it follows that merging the same object
again changes nothing. Inserting under a path is the case of an object with one path
(`Object.insertPath_eq_merge`).
-/

namespace LeaderKey

/-! ## One value over another -/

namespace Value

/-- What a key holds once `new` has been put there, where `old?` is what it held before. -/
def replacing (old? : Option Value) (new : Value) : Value :=
  match old? with
  | none => new
  | some old => old.over new

/-- A value that is no object replaces whatever was there. -/
theorem over_of_not_object {new : Value} (h : new.object? = none) (old : Value) :
    old.over new = new := by
  cases new with
  | object entries => cases h
  | _ => simp only [Value.over]

/-- An object merges into an object and replaces anything else. -/
theorem over_object (old : Value) (entries : Object) :
    old.over (.object entries) = match old.object? with
      | some before => .object (Object.merge before entries)
      | none => .object entries := by
  cases old <;> simp only [Value.over, object?]

/-- An object value is made of its entries. -/
theorem eq_object_of_object? {v : Value} {entries : Object} (h : v.object? = some entries) :
    v = .object entries := by
  cases v with
  | object _ => rw [Option.some.inj h]
  | _ => cases h

end Value

namespace Object

/-! ## Single keys -/

/-- After a change under a key, the key holds the new value and every other key what it held. -/
theorem get?_alter (key : String) (new : Option Value → Value) (o : Object) (k : String) :
    (alter key new o).get? k = if k = key then some (new (o.get? key)) else o.get? k := by
  induction o with
  | nil =>
    rw [alter, get?_cons]
    rfl
  | cons entry rest ih =>
    obtain ⟨l, w⟩ := entry
    rw [alter]
    by_cases hl : l = key
    · rw [if_pos hl, get?_cons, get?_cons, get?_cons, hl, if_pos rfl]
      by_cases hk : k = key
      · rw [if_pos hk, if_pos hk]
      · rw [if_neg hk, if_neg hk, if_neg hk]
    · rw [if_neg hl, get?_cons, get?_cons, get?_cons, if_neg (Ne.symm hl), ih]
      by_cases hk : k = key
      · rw [if_pos hk, if_neg (hk ▸ Ne.symm hl), if_pos hk]
      · rw [if_neg hk, if_neg hk]

/-- The key of an entry is one of the keys. -/
theorem mem_keys_of_mem {o : Object} {key : String} {v : Value} (h : (key, v) ∈ o) :
    key ∈ o.keys :=
  List.mem_map_of_mem h

/-- A look-up finds nothing exactly where the key is not there. -/
theorem get?_eq_none_iff {o : Object} {key : String} : o.get? key = none ↔ key ∉ o.keys := by
  induction o with
  | nil => simp [get?, keys]
  | cons entry rest ih =>
    rw [get?_cons, keys_cons, List.mem_cons, not_or]
    by_cases hk : key = entry.1
    · simp [hk]
    · rw [if_neg hk, ih]
      exact ⟨fun hrest => ⟨hk, hrest⟩, fun h => h.2⟩

/-- Merging puts the first entry in and goes on with the others. -/
theorem merge_cons (a : Object) (key : String) (v : Value) (rest : Object) :
    merge a ((key, v) :: rest) =
      merge (alter key (fun old? => Value.replacing old? v) a) rest := by
  rw [merge]
  rfl

/-- A key that the second object does not have keeps its value. -/
theorem get?_merge_of_not_mem (a : Object) {b : Object} {key : String} (h : key ∉ b.keys) :
    (merge a b).get? key = a.get? key := by
  induction b generalizing a with
  | nil => rw [merge]
  | cons entry rest ih =>
    obtain ⟨k, v⟩ := entry
    rw [keys_cons, List.mem_cons, not_or] at h
    rw [merge_cons, ih _ h.2, get?_alter, if_neg h.1]

/-- A key of the second object ends up with its value put over the one of the first object. -/
theorem get?_merge_of_mem (a : Object) {b : Object} (hb : b.keys.Nodup) {key : String} {v : Value}
    (h : (key, v) ∈ b) : (merge a b).get? key = some (Value.replacing (a.get? key) v) := by
  induction b generalizing a with
  | nil => cases h
  | cons entry rest ih =>
    obtain ⟨k, w⟩ := entry
    rw [keys_cons, List.nodup_cons] at hb
    rw [merge_cons]
    rcases List.mem_cons.1 h with heq | hrest
    · cases heq
      -- The key does not come again, so the rest leaves it alone.
      rw [get?_merge_of_not_mem _ hb.1, get?_alter, if_pos rfl]
    · have hne : key ≠ k := by
        rintro rfl
        exact hb.1 (mem_keys_of_mem hrest)
      rw [ih _ hb.2 hrest, get?_alter, if_neg hne]

/-- The first object's keys stay in front, and the keys that are new follow in their order. -/
theorem keys_merge (a : Object) {b : Object} (hb : b.keys.Nodup) :
    (merge a b).keys = a.keys ++ b.keys.filter fun key => !a.keys.contains key := by
  induction b generalizing a with
  | nil =>
    rw [merge]
    exact (List.append_nil _).symm
  | cons entry rest ih =>
    obtain ⟨k, v⟩ := entry
    rw [keys_cons, List.nodup_cons] at hb
    rw [merge_cons, ih _ hb.2, keys_alter, keys_cons]
    by_cases hk : k ∈ a.keys
    · rw [if_pos hk, List.filter_cons_of_neg (by simpa using hk)]
    · -- The key now stands at the end of the first object, and does not come again.
      have hrest : (keys rest).filter (fun key => !(a.keys ++ [k]).contains key) =
          (keys rest).filter fun key => !a.keys.contains key := by
        refine List.filter_congr fun key hkey => ?_
        have hne : key ≠ k := fun heq => hb.1 (heq ▸ hkey)
        simp [hne]
      rw [if_neg hk, hrest, List.filter_cons_of_pos (by simpa using hk), List.append_assoc,
        List.singleton_append]

/-- Objects without a common key are merged by putting one behind the other. -/
theorem merge_eq_append (a : Object) {b : Object} (hb : b.keys.Nodup)
    (h : ∀ key ∈ b.keys, key ∉ a.keys) : merge a b = a ++ b := by
  induction b generalizing a with
  | nil =>
    rw [merge]
    exact (List.append_nil a).symm
  | cons entry rest ih =>
    obtain ⟨k, v⟩ := entry
    rw [keys_cons, List.nodup_cons] at hb
    have halter : alter k (fun old? => Value.replacing old? v) a = a ++ [(k, v)] := by
      have hk : k ∉ a.keys := h k List.mem_cons_self
      clear ih h
      induction a with
      | nil => rfl
      | cons first more ih =>
        obtain ⟨l, w⟩ := first
        rw [keys_cons, List.mem_cons, not_or] at hk
        rw [alter, if_neg (Ne.symm hk.1), ih hk.2, List.cons_append]
    rw [merge_cons, halter, ih _ hb.2, List.append_assoc, List.singleton_append]
    intro key hkey hmem
    rw [keys, List.map_append, List.mem_append] at hmem
    rcases hmem with ha | hnew
    · exact h key (List.mem_cons_of_mem _ hkey) ha
    · have heq : key = k := by simpa using hnew
      exact hb.1 (heq ▸ hkey)

/-- Merging into the empty object gives the object itself. -/
theorem merge_nil {b : Object} (hb : b.keys.Nodup) : merge [] b = b :=
  merge_eq_append [] hb fun _ _ hmem => by cases hmem

/-- An object put where something was merges into the object that was there, if there was one. -/
theorem replacing_object (old? : Option Value) {entries : Object} (h : entries.keys.Nodup) :
    Value.replacing old? (.object entries) =
      .object (merge ((old?.bind Value.object?).getD []) entries) := by
  unfold Value.replacing
  cases old? with
  | none =>
    show Value.object entries = .object (merge [] entries)
    rw [merge_nil h]
  | some old =>
    show old.over (.object entries) = .object (merge (old.object?.getD []) entries)
    rw [Value.over_object]
    cases old.object? with
    | none =>
      show Value.object entries = .object (merge [] entries)
      rw [merge_nil h]
    | some before => rfl

/-- Any other value replaces what was there. -/
theorem replacing_of_not_object (old? : Option Value) {v : Value} (h : v.object? = none) :
    Value.replacing old? v = v := by
  unfold Value.replacing
  cases old? with
  | none => rfl
  | some old => exact Value.over_of_not_object h old

/-! ## Merging again -/

/-- A change that leaves the value of a key as it is leaves the object as it is. -/
theorem alter_eq_self {o : Object} {key : String} {new : Option Value → Value} {v : Value}
    (h : o.get? key = some v) (hnew : new (some v) = v) : alter key new o = o := by
  induction o with
  | nil => cases h
  | cons entry rest ih =>
    obtain ⟨k, w⟩ := entry
    rw [get?_cons] at h
    rw [alter]
    by_cases hk : key = k
    · rw [if_pos hk, Option.some.injEq] at h
      rw [if_pos hk.symm, h, hnew]
    · rw [if_neg hk] at h
      rw [if_neg (Ne.symm hk), ih h]

/-- Merging changes nothing if none of the values to put in changes the one that is there. -/
theorem merge_eq_self {m b : Object}
    (h : ∀ e ∈ b, ∃ w, m.get? e.1 = some w ∧ w.over e.2 = w) : merge m b = m := by
  induction b with
  | nil => rw [merge]
  | cons entry rest ih =>
    obtain ⟨k, v⟩ := entry
    obtain ⟨w, hget, hover⟩ := h (k, v) List.mem_cons_self
    have hfirst : alter k (fun old? => Value.replacing old? v) m = m := alter_eq_self hget hover
    rw [merge_cons, hfirst]
    exact ih fun e he => h e (List.mem_cons_of_mem _ he)

/-- Merging the same object again changes nothing if putting its values again changes nothing. -/
theorem merge_merge_of_over_over (a : Object) {b : Object} (hb : b.keys.Nodup)
    (h : ∀ e ∈ b, ∀ old : Value, (old.over e.2).over e.2 = old.over e.2) :
    merge (merge a b) b = merge a b := by
  refine merge_eq_self fun e he => ⟨_, get?_merge_of_mem a hb he, ?_⟩
  unfold Value.replacing
  split
  · -- A value over itself: seen as the value put twice over `null`.
    have hnull : Value.null.over e.2 = e.2 := by
      cases e.2 <;> simp only [Value.over]
    have htwice := h e he .null
    rwa [hnull] at htwice
  · exact h e he _

end Object

/-- Putting a keyed value over something again changes nothing. -/
theorem Value.Keyed.over_over {v : Value} (h : v.Keyed) (old : Value) :
    (old.over v).over v = old.over v := by
  induction h generalizing old with
  | @object entries hnodup _ ih =>
    have hput (w : Value) : w.over (.object entries) =
        .object (Object.merge (w.object?.getD []) entries) :=
      Object.replacing_object (some w) hnodup
    rw [hput, hput]
    exact congrArg Value.object
      (Object.merge_merge_of_over_over _ hnodup fun e he => ih e he)
  | _ => rw [Value.over_of_not_object rfl, Value.over_of_not_object rfl]

namespace Object

/-- Merging the same keyed object again changes nothing. -/
theorem merge_merge_self (a : Object) {b : Object} (hb : b.Keyed) :
    merge (merge a b) b = merge a b :=
  merge_merge_of_over_over a hb.nodup fun _ he => (hb.value he).over_over

/-! ## Paths -/

/-- The object at a path; without any entries if there is no object. -/
def objectAt (o : Object) (path : List String) : Object :=
  ((o.lookup path).bind Value.object?).getD []

/-- A proper beginning of the path leads to a value that is no object, so that nothing can stand at
the path itself. -/
def Blocks (o : Object) (path : List String) : Prop :=
  ∃ before v, before <+: path ∧ before ≠ path ∧ o.lookup before = some v ∧ v.object? = none

/-- No path leads anywhere in the empty object. -/
theorem lookup_nil (path : List String) : lookup path ([] : Object) = none := by
  cases path with
  | nil => rfl
  | cons key rest =>
    cases rest with
    | nil => rfl
    | cons next rest => rfl

/-- A longer path goes on in the object under its first key. -/
theorem lookup_cons (o : Object) (key : String) {rest : List String} (h : rest ≠ []) :
    o.lookup (key :: rest) = (o.objectAt [key]).lookup rest := by
  cases rest with
  | nil => contradiction
  | cons next rest =>
    show ((o.get? key).bind Value.object?).bind (lookup (next :: rest)) = _
    rw [objectAt, lookup]
    cases (o.get? key).bind Value.object? with
    | none => exact (lookup_nil _).symm
    | some entries => rfl

/-- A single key is never blocked. -/
theorem not_blocks_singleton (o : Object) (key : String) : ¬ o.Blocks [key] := by
  rintro ⟨before, v, hbefore, hne, hlookup, _⟩
  rcases List.prefix_cons_iff.1 hbefore with rfl | ⟨t, rfl, ht⟩
  · cases hlookup
  · rw [List.prefix_nil.1 ht] at hne
    exact hne rfl

/-- What blocks a longer path stands under its first key, or blocks the rest of it there. -/
theorem blocks_cons (o : Object) (key : String) {rest : List String} (h : rest ≠ []) :
    o.Blocks (key :: rest) ↔
      (∃ v, o.get? key = some v ∧ v.object? = none) ∨ (o.objectAt [key]).Blocks rest := by
  constructor
  · rintro ⟨before, v, hbefore, hne, hlookup, hv⟩
    rcases List.prefix_cons_iff.1 hbefore with rfl | ⟨t, rfl, ht⟩
    · cases hlookup
    · by_cases hnil : t = []
      · rw [hnil] at hlookup
        exact Or.inl ⟨v, hlookup, hv⟩
      · rw [lookup_cons o key hnil] at hlookup
        exact Or.inr ⟨t, v, ht, fun heq => hne (by rw [heq]), hlookup, hv⟩
  · rintro (⟨v, hget, hv⟩ | ⟨t, v, ht, hne, hlookup, hv⟩)
    · refine ⟨[key], v, ?_, ?_, hget, hv⟩
      · exact List.prefix_cons_iff.2 (Or.inr ⟨[], rfl, List.nil_prefix⟩)
      · simpa using h.symm
    · have hnil : t ≠ [] := by
        rintro rfl
        cases hlookup
      refine ⟨key :: t, v, List.cons_prefix_cons.2 ⟨rfl, ht⟩, by simpa using hne, ?_, hv⟩
      rw [lookup_cons o key hnil, hlookup]

/-- The entries of a keyed value, if it is an object, are a keyed object. -/
theorem keyed_entries {v? : Option Value} (h : ∀ v, v? = some v → v.Keyed) :
    Object.Keyed ((v?.bind Value.object?).getD []) := by
  cases v? with
  | none => exact keyed_nil
  | some v =>
    have hv : v.Keyed := h v rfl
    cases v with
    | object entries => exact hv
    | _ => exact keyed_nil

/-- Everything in a keyed object is keyed, however deep. -/
theorem Keyed.lookup {o : Object} (h : o.Keyed) {path : List String} {v : Value}
    (hv : o.lookup path = some v) : v.Keyed := by
  induction path generalizing o with
  | nil => cases hv
  | cons key rest ih =>
    by_cases hnil : rest = []
    · subst hnil
      exact h.value (mem_of_get? hv)
    · rw [lookup_cons o key hnil] at hv
      exact ih (keyed_entries fun w hw => h.value (mem_of_get? hw)) hv

/-- Every object in a keyed object is keyed. -/
theorem Keyed.objectAt {o : Object} (h : o.Keyed) (path : List String) :
    (o.objectAt path).Keyed :=
  keyed_entries fun _ hv => h.lookup hv

/-! ## Looking up in a merged object -/

/-- A value of the second object that is no object leaves none under its key. -/
theorem objectAt_merge_of_value (a : Object) {b : Object} (hb : b.Keyed) {key : String} {v : Value}
    (hkey : b.get? key = some v) (hv : v.object? = none) : (merge a b).objectAt [key] = [] := by
  unfold objectAt
  rw [lookup, get?_merge_of_mem a hb.nodup (mem_of_get? hkey), replacing_of_not_object _ hv,
    Option.bind_some, hv]
  rfl

/-- Where the second object has no other value under a key, the objects under it merge. -/
theorem objectAt_merge_of_not (a : Object) {b : Object} (hb : b.Keyed) {key : String}
    (h : ¬ ∃ v, b.get? key = some v ∧ v.object? = none) :
    (merge a b).objectAt [key] = merge (a.objectAt [key]) (b.objectAt [key]) := by
  unfold objectAt
  simp only [lookup]
  cases hkey : b.get? key with
  | none =>
    rw [get?_merge_of_not_mem a (get?_eq_none_iff.1 hkey)]
    show _ = merge _ []
    rw [merge]
  | some v =>
    cases hv : v.object? with
    | none => exact absurd ⟨v, hkey, hv⟩ h
    | some entries =>
      obtain rfl := Value.eq_object_of_object? hv
      have hentries : Object.Keyed entries := hb.value (mem_of_get? hkey)
      rw [get?_merge_of_mem a hb.nodup (mem_of_get? hkey), replacing_object _ hentries.nodup]
      rfl

/-- Below a value of the second object that is no object, a path leads nowhere. -/
theorem lookup_merge_of_blocks (a : Object) {b : Object} (hb : b.Keyed) {path : List String}
    (h : b.Blocks path) : (merge a b).lookup path = none := by
  induction path generalizing a b with
  | nil => rfl
  | cons key rest ih =>
    by_cases hnil : rest = []
    · rw [hnil] at h
      exact absurd h (not_blocks_singleton b key)
    · rw [lookup_cons _ key hnil]
      rw [blocks_cons b key hnil] at h
      by_cases hkey : ∃ v, b.get? key = some v ∧ v.object? = none
      · obtain ⟨v, hget, hv⟩ := hkey
        rw [objectAt_merge_of_value a hb hget hv, lookup_nil]
      · rw [objectAt_merge_of_not a hb hkey]
        exact ih _ (hb.objectAt [key]) (h.resolve_left hkey)

/-- Where the second object leads nowhere and nothing of it is in the way, the first one stays. -/
theorem lookup_merge_of_none (a : Object) {b : Object} (hb : b.Keyed) {path : List String}
    (h : b.lookup path = none) (hfree : ¬ b.Blocks path) :
    (merge a b).lookup path = a.lookup path := by
  induction path generalizing a b with
  | nil => rfl
  | cons key rest ih =>
    by_cases hnil : rest = []
    · subst hnil
      rw [lookup] at h
      rw [lookup, lookup, get?_merge_of_not_mem a (get?_eq_none_iff.1 h)]
    · rw [blocks_cons b key hnil, not_or] at hfree
      rw [lookup_cons b key hnil] at h
      rw [lookup_cons _ key hnil, lookup_cons _ key hnil, objectAt_merge_of_not a hb hfree.1]
      exact ih _ (hb.objectAt [key]) h hfree.2

/-- Where the second object leads to a value, this is put over what the first one leads to. -/
theorem lookup_merge_of_some (a : Object) {b : Object} (hb : b.Keyed) {path : List String}
    {v : Value} (h : b.lookup path = some v) :
    (merge a b).lookup path = some (Value.replacing (a.lookup path) v) := by
  induction path generalizing a b with
  | nil => cases h
  | cons key rest ih =>
    by_cases hnil : rest = []
    · subst hnil
      rw [lookup] at h
      rw [lookup, lookup, get?_merge_of_mem a hb.nodup (mem_of_get? h)]
    · rw [lookup_cons b key hnil] at h
      -- Under a value that is no object the path would lead nowhere.
      have hkey : ¬ ∃ w, b.get? key = some w ∧ w.object? = none := by
        rintro ⟨w, hget, hw⟩
        have hempty : b.objectAt [key] = [] := by
          rw [objectAt, lookup, hget, Option.bind_some, hw]
          rfl
        rw [hempty, lookup_nil] at h
        cases h
      rw [lookup_cons _ key hnil, lookup_cons a key hnil, objectAt_merge_of_not a hb hkey]
      exact ih _ (hb.objectAt [key]) h

/-- What merging means for every path. A path below a value of the second object that is no object
leads nowhere; a path to such a value leads to this value; a path to an object of the second one
leads to an object, with the keys of the first one's object in front and the new ones behind in
their order; and any other path leads where it led in the first object. The root has its keys in
the same order, and merging the second object again changes nothing. -/
theorem merge_path_by_path (a : Object) {b : Object} (hb : b.Built) :
    (∀ path : List String,
      (b.Blocks path → (merge a b).lookup path = none) ∧
      (∀ v, b.lookup path = some v → v.object? = none → (merge a b).lookup path = some v) ∧
      (∀ entries, b.lookup path = some (.object entries) →
        ∃ merged, (merge a b).lookup path = some (.object merged) ∧
          keys merged = (a.objectAt path).keys ++
            (keys entries).filter fun key => !(a.objectAt path).keys.contains key) ∧
      (b.lookup path = none → ¬ b.Blocks path →
        (merge a b).lookup path = a.lookup path)) ∧
    (merge a b).keys = a.keys ++ b.keys.filter (fun key => !a.keys.contains key) ∧
    merge (merge a b) b = merge a b := by
  have hkeyed : b.Keyed := hb.keyed
  refine ⟨fun path => ⟨?_, ?_, ?_, ?_⟩, keys_merge a hkeyed.nodup, merge_merge_self a hkeyed⟩
  · exact lookup_merge_of_blocks a hkeyed
  · intro v hv hscalar
    rw [lookup_merge_of_some a hkeyed hv, replacing_of_not_object _ hscalar]
  · intro entries hentries
    have hnodup : (keys entries).Nodup := Object.Keyed.nodup (hkeyed.lookup hentries)
    refine ⟨merge (a.objectAt path) entries, ?_, keys_merge _ hnodup⟩
    rw [lookup_merge_of_some a hkeyed hentries, replacing_object _ hnodup]
    rfl
  · exact lookup_merge_of_none a hkeyed

/-- An object with an object, and another value behind it. -/
def settings : Object :=
  [("x", .object [("p", .number "1"), ("q", .object [("r", .number "2")])]), ("y", .number "3")]

/-- An object to merge into it: `null` stands where the first one has an object. -/
def override : Object :=
  (insert [] "x" (.object (insert (insert [] "q" .null) "s" (.number "4")))).insert "z" (.object [])

/-- Each kind of path through the two. -/
theorem merge_path_by_path_override :
    override.Built ∧
    (merge settings override).lookup ["x", "q", "r"] = none ∧
    (merge settings override).lookup ["x", "q"] = some .null ∧
    (∃ merged, (merge settings override).lookup ["x"] = some (.object merged) ∧
      keys merged = ["p", "q", "s"]) ∧
    (merge settings override).lookup ["x", "p"] = some (.number "1") ∧
    (merge settings override).keys = ["x", "y", "z"] ∧
    merge (merge settings override) override = merge settings override := by
  have hbuilt : override.Built :=
    .insert (.insert .empty "x" (.insert (.insert .empty "q" .null) "s" (.number "4"))) "z" .empty
  obtain ⟨hpaths, hkeys, hagain⟩ := merge_path_by_path settings hbuilt
  have hblocked : override.Blocks ["x", "q", "r"] :=
    ⟨["x", "q"], .null, by decide, by decide, by decide, rfl⟩
  have hfree : ¬ override.Blocks ["x", "p"] := by
    rw [blocks_cons override "x" (by decide), not_or]
    refine ⟨?_, not_blocks_singleton _ "p"⟩
    rintro ⟨v, hget, hv⟩
    have hx : override.get? "x" = some (.object [("q", .null), ("s", .number "4")]) := by decide
    rw [hx, Option.some.injEq] at hget
    subst hget
    cases hv
  refine ⟨hbuilt, (hpaths _).1 hblocked, (hpaths _).2.1 .null (by decide) rfl, ?_, ?_, hkeys, hagain⟩
  · exact (hpaths ["x"]).2.2.1 [("q", .null), ("s", .number "4")] (by decide)
  · exact (hpaths ["x", "p"]).2.2.2 (by decide) hfree

/-! ## Inserting under a path -/

/-- Inserting under a path is merging an object that has just this path. -/
theorem insertPath_eq_merge (o : Object) (path : List String) (v : Value) :
    o.insertPath path v = merge o (insertPath [] path v) := by
  cases path with
  | nil =>
    show o = merge o []
    rw [merge]
  | cons key rest =>
    show o.insert key (nest rest v) = merge o [(key, nest rest v)]
    rw [merge, merge]
    rfl

/-- The object that has just one path has nothing but the first key of it. -/
theorem get?_insertPath_nil (key : String) (rest : List String) (v : Value) (k : String) :
    get? (insertPath [] (key :: rest) v) k = if k = key then some (nest rest v) else none :=
  get?_cons key (nest rest v) [] k

/-- Under the first key of a longer path, the object that has just this path has the rest of it. -/
theorem objectAt_insertPath_nil (key : String) {rest : List String} (h : rest ≠ []) (v : Value) :
    (insertPath [] (key :: rest) v).objectAt [key] = insertPath [] rest v := by
  rw [objectAt, lookup, get?_insertPath_nil, if_pos rfl]
  cases rest with
  | nil => contradiction
  | cons next rest => rfl

/-- The object that has just one path has the value there. -/
theorem lookup_insertPath_nil {path : List String} (h : path ≠ []) (v : Value) :
    (insertPath [] path v).lookup path = some v := by
  induction path with
  | nil => contradiction
  | cons key rest ih =>
    by_cases hnil : rest = []
    · rw [hnil, lookup, get?_insertPath_nil, if_pos rfl]
      rfl
    · rw [lookup_cons _ key hnil, objectAt_insertPath_nil key hnil]
      exact ih hnil

/-- In the object that has just one path, a path leads somewhere only if it extends this path, or is
a proper beginning of it, and then it leads to an object. -/
theorem insertPath_nil_cases {path other : List String} {v w : Value}
    (h : (insertPath [] path v).lookup other = some w) :
    path <+: other ∨ other <+: path ∧ w.object?.isSome = true := by
  induction path generalizing other with
  | nil =>
    rw [insertPath, lookup_nil] at h
    cases h
  | cons key rest ih =>
    cases other with
    | nil => cases h
    | cons k more =>
      -- Under any other first key there is nothing.
      have hk : k = key := by
        by_contra hk
        have hget : get? (insertPath [] (key :: rest) v) k = none := by
          rw [get?_insertPath_nil, if_neg hk]
        by_cases hmore : more = []
        · rw [hmore, lookup, hget] at h
          cases h
        · rw [lookup_cons _ k hmore, objectAt, lookup, hget] at h
          rw [Option.bind_none, Option.getD_none, lookup_nil] at h
          cases h
      subst hk
      by_cases hrest : rest = []
      · rw [hrest]
        exact Or.inl (List.cons_prefix_cons.2 ⟨rfl, List.nil_prefix⟩)
      · by_cases hmore : more = []
        · rw [hmore, lookup, get?_insertPath_nil, if_pos rfl, Option.some.injEq] at h
          rw [hmore, ← h]
          refine Or.inr ⟨List.cons_prefix_cons.2 ⟨rfl, List.nil_prefix⟩, ?_⟩
          cases rest with
          | nil => contradiction
          | cons next rest => rfl
        · rw [lookup_cons _ k hmore, objectAt_insertPath_nil k hrest] at h
          rcases ih h with hextends | ⟨hbegins, hobject⟩
          · exact Or.inl (List.cons_prefix_cons.2 ⟨rfl, hextends⟩)
          · exact Or.inr ⟨List.cons_prefix_cons.2 ⟨rfl, hbegins⟩, hobject⟩

/-- A value that is no object is found under the path where it was inserted. -/
theorem lookup_insertPath_self (o : Object) {path : List String} (hpath : path ≠ []) {v : Value}
    (hv : v.Keyed) (hscalar : v.object? = none) : (o.insertPath path v).lookup path = some v := by
  have hkeyed : (insertPath [] path v).Keyed := keyed_nil.insertPath path hv
  rw [insertPath_eq_merge, lookup_merge_of_some o hkeyed (lookup_insertPath_nil hpath v),
    replacing_of_not_object _ hscalar]

/-- Inserting under a path leaves every path alone that neither begins nor extends it. -/
theorem lookup_insertPath_of_apart (o : Object) {path other : List String} {v : Value}
    (hv : v.Keyed) (hbegins : ¬ other <+: path) (hextends : ¬ path <+: other) :
    (o.insertPath path v).lookup other = o.lookup other := by
  have hkeyed : (insertPath [] path v).Keyed := keyed_nil.insertPath path hv
  have hnone : (insertPath [] path v).lookup other = none := by
    by_contra hsome
    obtain ⟨w, hw⟩ := Option.ne_none_iff_exists'.1 hsome
    rcases insertPath_nil_cases hw with hlonger | ⟨hshorter, _⟩
    · exact hextends hlonger
    · exact hbegins hshorter
  have hfree : ¬ (insertPath [] path v).Blocks other := by
    rintro ⟨before, w, hbefore, _, hw, hscalar⟩
    rcases insertPath_nil_cases hw with hlonger | ⟨_, hobject⟩
    · exact hextends (hlonger.trans hbefore)
    · rw [hscalar] at hobject
      cases hobject
  rw [insertPath_eq_merge]
  exact lookup_merge_of_none o hkeyed hnone hfree

end Object

end LeaderKey
