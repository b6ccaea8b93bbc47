import LeaderKey.Proofs.Value.Heritable
import Mathlib.Data.List.Nodup

/-!
# Objects hold a key once

`Value.Keyed` says that no object holds a key twice, at any depth and inside lists too. Everything
that makes objects keeps this up: `Object.Keyed.alter`, `Object.Keyed.merge` and
`Object.Keyed.insertPath`, and so every object that can be made is keyed (`Object.Built.keyed`). In
such an object an entry and a look-up are the same (`Object.Keyed.get?_eq_some_iff`).
-/

namespace LeaderKey

/-- No object holds a key twice, at any depth and inside lists too. -/
inductive Value.Keyed : Value → Prop
  | null : Keyed .null
  | boolean (b : Bool) : Keyed (.boolean b)
  | number (spelling : String) : Keyed (.number spelling)
  | string (text : String) : Keyed (.string text)
  | list {items : List Value} (hitems : ∀ v ∈ items, Keyed v) : Keyed (.list items)
  | object {entries : List (String × Value)} (hnodup : (Object.keys entries).Nodup)
      (hvalues : ∀ e ∈ entries, Keyed e.2) : Keyed (.object entries)

namespace Object

/-- The keys of an object, one by one. -/
theorem keys_cons (e : String × Value) (o : Object) : keys (e :: o) = e.1 :: keys o := rfl

/-- Neither the object nor any object in it holds a key twice. -/
def Keyed (o : Object) : Prop := (Value.object o).Keyed

/-- The keys of the object are distinct. -/
theorem Keyed.nodup {o : Object} (h : o.Keyed) : o.keys.Nodup := by
  cases h
  assumption

/-- The values in the object are keyed themselves. -/
theorem Keyed.value {o : Object} (h : o.Keyed) {e : String × Value} (he : e ∈ o) : e.2.Keyed := by
  cases h with
  | object _ hvalues => exact hvalues e he

/-- The empty object. -/
theorem keyed_nil : Keyed [] := .object List.nodup_nil (by simp)

/-! ## Looking up -/

/-- A look-up finds the first entry or goes on behind it. -/
theorem get?_cons (k : String) (w : Value) (rest : Object) (key : String) :
    get? ((k, w) :: rest) key = if key = k then some w else get? rest key := by
  rw [get?, List.lookup_cons, get?]
  by_cases hk : key = k
  · rw [if_pos hk, beq_iff_eq.2 hk]
  · rw [if_neg hk, beq_eq_false_iff_ne.2 hk]

/-- What a look-up finds is there. -/
theorem mem_of_get? {o : Object} {key : String} {v : Value} (h : o.get? key = some v) :
    (key, v) ∈ o := by
  induction o with
  | nil => cases h
  | cons entry rest ih =>
    rw [get?_cons] at h
    by_cases hk : key = entry.1
    · rw [if_pos hk, Option.some.injEq] at h
      rw [hk, ← h]
      exact List.mem_cons_self
    · rw [if_neg hk] at h
      exact List.mem_cons_of_mem _ (ih h)

/-- Where keys are distinct, a look-up finds exactly what is there. -/
theorem get?_eq_some_iff {o : Object} (hnodup : o.keys.Nodup) {key : String} {v : Value} :
    o.get? key = some v ↔ (key, v) ∈ o := by
  refine ⟨mem_of_get?, fun hmem => ?_⟩
  induction o with
  | nil => cases hmem
  | cons entry rest ih =>
    rw [keys_cons, List.nodup_cons] at hnodup
    rw [get?_cons]
    rcases List.mem_cons.1 hmem with heq | hrest
    · rw [← heq, if_pos rfl]
    · have hk : key ≠ entry.1 := by
        intro hk
        exact hnodup.1 (hk ▸ List.mem_map_of_mem hrest)
      rw [if_neg hk]
      exact ih hnodup.2 hrest

/-- In a keyed object, a look-up finds exactly what is there. -/
theorem Keyed.get?_eq_some_iff {o : Object} (h : o.Keyed) {key : String} {v : Value} :
    o.get? key = some v ↔ (key, v) ∈ o :=
  Object.get?_eq_some_iff h.nodup

/-- Where keys are distinct, the order of the entries makes no difference to a look-up. -/
theorem get?_perm {o o' : Object} (hnodup : o.keys.Nodup) (hperm : o.Perm o') (key : String) :
    o.get? key = o'.get? key := by
  have hnodup' : o'.keys.Nodup := (hperm.map Prod.fst).nodup_iff.1 hnodup
  refine Option.ext fun v => ?_
  rw [get?_eq_some_iff hnodup, get?_eq_some_iff hnodup', hperm.mem_iff]

/-! ## Putting in -/

/-- A change under a key keeps the other keys in their places; a new key comes last. -/
theorem keys_alter (key : String) (new : Option Value → Value) (o : Object) :
    (alter key new o).keys = if key ∈ o.keys then o.keys else o.keys ++ [key] := by
  induction o with
  | nil => rfl
  | cons entry rest ih =>
    obtain ⟨k, w⟩ := entry
    rw [alter]
    by_cases hk : k = key
    · simp [hk, keys_cons]
    · rw [if_neg hk, keys_cons, keys_cons, ih]
      simp only [List.mem_cons, Ne.symm hk, false_or]
      by_cases hkey : key ∈ keys rest
      · rw [if_pos hkey, if_pos hkey]
      · rw [if_neg hkey, if_neg hkey, List.cons_append]

/-- An entry after a change is an old one or holds the new value. -/
theorem mem_alter {key : String} {new : Option Value → Value} {o : Object} {e : String × Value}
    (h : e ∈ alter key new o) :
    e ∈ o ∨ e.2 = new none ∨ ∃ old, (key, old) ∈ o ∧ e.2 = new (some old) := by
  induction o with
  | nil =>
    rw [alter, List.mem_singleton] at h
    exact Or.inr (Or.inl (by rw [h]))
  | cons entry rest ih =>
    obtain ⟨k, w⟩ := entry
    rw [alter] at h
    by_cases hk : k = key
    · rw [if_pos hk] at h
      rcases List.mem_cons.1 h with rfl | hrest
      · exact Or.inr (Or.inr ⟨w, by simp [hk], rfl⟩)
      · exact Or.inl (List.mem_cons_of_mem _ hrest)
    · rw [if_neg hk] at h
      rcases List.mem_cons.1 h with rfl | hrest
      · exact Or.inl List.mem_cons_self
      · rcases ih hrest with hold | hnone | ⟨old, hold, hnew⟩
        · exact Or.inl (List.mem_cons_of_mem _ hold)
        · exact Or.inr (Or.inl hnone)
        · exact Or.inr (Or.inr ⟨old, List.mem_cons_of_mem _ hold, hnew⟩)

/-- A change keeps an object keyed if what it puts in is keyed. -/
theorem Keyed.alter {o : Object} (h : o.Keyed) {key : String} {new : Option Value → Value}
    (hnone : (new none).Keyed) (hsome : ∀ old : Value, old.Keyed → (new (some old)).Keyed) :
    (alter key new o).Keyed := by
  refine .object ?_ fun e he => ?_
  · rw [keys_alter]
    split
    · exact h.nodup
    · rename_i hkey
      rw [← List.concat_eq_append]
      exact h.nodup.concat hkey
  · rcases mem_alter he with hold | hnew | ⟨old, hold, hnew⟩
    · exact h.value hold
    · rw [hnew]
      exact hnone
    · rw [hnew]
      exact hsome old (h.value hold)

/-- An object without one of its entries is keyed still. -/
theorem Keyed.tail {o : Object} {e : String × Value} (h : Keyed (e :: o)) : o.Keyed :=
  .object (List.nodup_cons.1 h.nodup).2 fun _ he => h.value (List.mem_cons_of_mem _ he)

end Object

/-- Objects hand down that they are keyed, and keep it. -/
theorem Value.heritable_keyed : Heritable Keyed where
  empty := Object.keyed_nil
  value h he := Object.Keyed.value h he
  tail h := Object.Keyed.tail h
  alter h hnone hsome := Object.Keyed.alter h hnone hsome

namespace Object

/-- Merging a keyed object into a keyed object gives a keyed object. -/
theorem Keyed.merge {o new : Object} (h : o.Keyed) (hnew : new.Keyed) : (o.merge new).Keyed :=
  Value.heritable_keyed.merge h hnew

/-- Inserting a keyed value keeps an object keyed. -/
theorem Keyed.insert {o : Object} (h : o.Keyed) (key : String) {value : Value}
    (hvalue : value.Keyed) : (o.insert key value).Keyed :=
  Value.heritable_keyed.insert h key hvalue

/-- Inserting a keyed value under a path keeps an object keyed. -/
theorem Keyed.insertPath {o : Object} (h : o.Keyed) (path : List String) {value : Value}
    (hvalue : value.Keyed) : (o.insertPath path value).Keyed :=
  Value.heritable_keyed.insertPath h path hvalue

end Object

/-! ## Everything that can be made -/

/-- The value can be made: a scalar, a list of such values, or an object that came from the empty
one by inserting such values, inserting them under paths, and merging. -/
inductive Value.Built : Value → Prop
  | null : Built .null
  | boolean (b : Bool) : Built (.boolean b)
  | number (spelling : String) : Built (.number spelling)
  | string (text : String) : Built (.string text)
  | list {items : List Value} (hitems : ∀ v ∈ items, Built v) : Built (.list items)
  | empty : Built (.object [])
  | insert {o : Object} (ho : Built (.object o)) (key : String) {value : Value}
      (hvalue : Built value) : Built (.object (o.insert key value))
  | insertPath {o : Object} (ho : Built (.object o)) (path : List String) {value : Value}
      (hvalue : Built value) : Built (.object (o.insertPath path value))
  | merge {o new : Object} (ho : Built (.object o)) (hnew : Built (.object new)) :
      Built (.object (Object.merge o new))

/-- The object can be made. -/
def Object.Built (o : Object) : Prop := (Value.object o).Built

/-- What can be made is keyed. -/
theorem Value.Built.keyed {v : Value} (h : v.Built) : v.Keyed := by
  induction h with
  | null => exact .null
  | boolean b => exact .boolean b
  | number spelling => exact .number spelling
  | string text => exact .string text
  | list _ ih => exact .list ih
  | empty => exact Object.keyed_nil
  | insert _ key _ iho ihvalue => exact Object.Keyed.insert iho key ihvalue
  | insertPath _ path _ iho ihvalue => exact Object.Keyed.insertPath iho path ihvalue
  | merge _ _ iho ihnew => exact Object.Keyed.merge iho ihnew

/-- An object that can be made holds no key twice. -/
theorem Object.Built.keyed {o : Object} (h : o.Built) : o.Keyed := Value.Built.keyed h

end LeaderKey
