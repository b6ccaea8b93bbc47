/-!
# Config values

A config text describes a tree of values. An object is a list of entries in the order in which
their keys first appeared; `Object.insert` keeps that order, lets two objects under one key grow
together and otherwise replaces the old value. `Value.same_iff` makes equality of values decidable:
two objects with the same entries in another order are different values.
-/

namespace LeaderKey

/-- A value of a config text. -/
inductive Value where
  /-- The absent value. -/
  | null
  /-- A truth value. -/
  | boolean (b : Bool)
  /-- A number, as it was written. -/
  | number (spelling : String)
  /-- A text. -/
  | string (text : String)
  /-- A list of values. -/
  | list (items : List Value)
  /-- Values under keys, in the order in which the keys first appeared. -/
  | object (entries : List (String × Value))
  deriving Inhabited

/-- The entries of an object value. -/
abbrev Object := List (String × Value)

/-- The kinds of values. -/
inductive Kind where
  | null
  | boolean
  | number
  | string
  | list
  | object
  deriving DecidableEq, Repr

namespace Kind

/-- The name of a kind in messages. -/
def name : Kind → String
  | .null => "NULL"
  | .boolean => "BOOLEAN"
  | .number => "NUMBER"
  | .string => "STRING"
  | .list => "LIST"
  | .object => "OBJECT"

end Kind

namespace Value

/-- The kind of a value. -/
def kind : Value → Kind
  | .null => .null
  | .boolean _ => .boolean
  | .number _ => .number
  | .string _ => .string
  | .list _ => .list
  | .object _ => .object

/-- Whether the value is `null`, which counts as absent. -/
def isNull : Value → Bool
  | .null => true
  | _ => false

/-- The text of a string value. -/
def string? : Value → Option String
  | .string text => some text
  | _ => none

/-- The entries of an object value. -/
def object? : Value → Option Object
  | .object entries => some entries
  | _ => none

/-- A scalar as text: strings, and numbers and truth values as they are written. -/
def text? : Value → Option String
  | .string text => some text
  | .number spelling => some spelling
  | .boolean b => some (if b then "true" else "false")
  | .null | .list _ | .object _ => none

/-! ## Equality -/

mutual

/-- Whether two values are the same. -/
def same : Value → Value → Bool
  | .null, .null => true
  | .boolean a, .boolean b => a == b
  | .number a, .number b => a == b
  | .string a, .string b => a == b
  | .list xs, .list ys => sameItems xs ys
  | .object xs, .object ys => sameEntries xs ys
  | _, _ => false

/-- Whether two lists hold the same values. -/
def sameItems : List Value → List Value → Bool
  | [], [] => true
  | x :: xs, y :: ys => same x y && sameItems xs ys
  | _, _ => false

/-- Whether two objects hold the same entries in the same order. -/
def sameEntries : List (String × Value) → List (String × Value) → Bool
  | [], [] => true
  | (k, x) :: xs, (l, y) :: ys => k == l && same x y && sameEntries xs ys
  | _, _ => false

end

mutual

/-- `same` decides equality. -/
theorem same_iff : ∀ a b : Value, same a b = true ↔ a = b
  | .null, b => by cases b <;> simp [same]
  | .boolean x, b => by cases b <;> simp [same]
  | .number x, b => by cases b <;> simp [same]
  | .string x, b => by cases b <;> simp [same]
  | .list xs, b => by cases b <;> simp [same, sameItems_iff xs]
  | .object xs, b => by cases b <;> simp [same, sameEntries_iff xs]

/-- `sameItems` decides equality of lists. -/
theorem sameItems_iff : ∀ xs ys : List Value, sameItems xs ys = true ↔ xs = ys
  | [], ys => by cases ys <;> simp [sameItems]
  | x :: xs, ys => by
    cases ys <;> simp [sameItems, same_iff x, sameItems_iff xs]

/-- `sameEntries` decides equality of entry lists. -/
theorem sameEntries_iff : ∀ xs ys : List (String × Value), sameEntries xs ys = true ↔ xs = ys
  | [], ys => by cases ys <;> simp [sameEntries]
  | (k, x) :: xs, ys => by
    rcases ys with _ | ⟨⟨l, y⟩, ys⟩ <;> simp [sameEntries, same_iff x, sameEntries_iff xs]

end

instance : DecidableEq Value := fun a b => decidable_of_iff _ (same_iff a b)

end Value

/-! ## Objects -/

namespace Object

/-- The keys of an object, in order. -/
def keys (o : Object) : List String := o.map (·.1)

/-- The value under `key`. -/
def get? (o : Object) (key : String) : Option Value := List.lookup key o

/-- Whether the object has the key. -/
def contains (o : Object) (key : String) : Bool := (o.get? key).isSome

/-- The value that a list of keys leads to, through nested objects; the empty list leads to
nothing. -/
def lookup : List String → Object → Option Value
  | [], _ => none
  | [key], o => o.get? key
  | key :: rest, o => ((o.get? key).bind Value.object?).bind (lookup rest)

/-- Puts `new old?` under `key`, where `old?` is the value already there: in its place, or at the
end if the key is new. -/
def alter (key : String) (new : Option Value → Value) : Object → Object
  | [] => [(key, new none)]
  | (k, v) :: rest =>
    if k = key then (k, new (some v)) :: rest else (k, v) :: alter key new rest

end Object

mutual

/-- What a key holds once `new` has been put over `old`: two objects merge, and otherwise the new
value replaces the old one. -/
def Value.over (old : Value) : (new : Value) → Value
  | .object entries =>
    match old with
    | .object before => .object (Object.merge before entries)
    | _ => .object entries
  | new => new

/-- Inserts the entries of the second object into the first one, in order. -/
def Object.merge (o : Object) : List (String × Value) → Object
  | [] => o
  | (key, value) :: rest =>
    Object.merge (Object.alter key (fun | none => value | some old => old.over value) o) rest

end

namespace Object

/-- Puts `value` under `key`, merging it with an object that is already there. -/
def insert (o : Object) (key : String) (value : Value) : Object :=
  alter key (fun | none => value | some old => old.over value) o

/-- The value that holds `value` under the path `keys`, one object inside another. -/
def nest (keys : List String) (value : Value) : Value :=
  keys.foldr (fun key inner => .object [(key, inner)]) value

/-- Puts `value` under a path of keys, making the objects on the way; the empty path changes
nothing. -/
def insertPath (o : Object) : (path : List String) → (value : Value) → Object
  | [], _ => o
  | key :: rest, value => o.insert key (nest rest value)

/-- Merging is inserting the entries one by one. -/
theorem merge_eq_foldl (o new : Object) :
    merge o new = new.foldl (fun o e => o.insert e.1 e.2) o := by
  induction new generalizing o with
  | nil => rfl
  | cons e rest ih => exact ih _

end Object

end LeaderKey
