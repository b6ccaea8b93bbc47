import LeaderKey.Value

/-!
# Properties that objects hand down

Objects are made from the empty one by putting values in, under keys and paths, and by merging. What
holds of the values that are put in holds of the object if the property is one that an object hands
down to its values and that `Object.alter` keeps (`Value.Heritable`). Putting in under a key or a
path and merging, which go down into nested objects, keep such a property too.
-/

namespace LeaderKey

/-- A property that the values in an object have if the object has it, and that an object keeps when
a value with the property is put in. -/
structure Value.Heritable (P : Value → Prop) : Prop where
  /-- The empty object has the property. -/
  empty : P (.object [])
  /-- An object hands the property down. -/
  value : ∀ {o : Object} {e : String × Value}, P (.object o) → e ∈ o → P e.2
  /-- An object with an entry less keeps the property. -/
  tail : ∀ {o : Object} {e : String × Value}, P (.object (e :: o)) → P (.object o)
  /-- An object keeps the property if the value put in has it, whatever it is made of. -/
  alter : ∀ {o : Object} {key : String} {new : Option Value → Value}, P (.object o) →
    P (new none) → (∀ old, P old → P (new (some old))) → P (.object (Object.alter key new o))

namespace Value.Heritable

variable {P : Value → Prop}

mutual

/-- A value over another one has what both have. -/
theorem over_value (hP : Heritable P) {old : Value} (hold : P old) :
    ∀ {new : Value}, P new → P (old.over new)
  | .object entries, hnew => by
    rw [Value.over.eq_def]
    dsimp only
    split
    · exact hP.merge hold hnew
    · exact hnew
  | .null, hnew | .boolean _, hnew | .number _, hnew | .string _, hnew | .list _, hnew => by
    simpa only [Value.over] using hnew

/-- An object merged into another one has what both have. -/
theorem merge (hP : Heritable P) {o : Object} (h : P (.object o)) :
    ∀ {new : List (String × Value)}, P (.object new) → P (.object (Object.merge o new))
  | [], _ => by
    rw [Object.merge]
    exact h
  | (key, value) :: rest, hnew => by
    rw [Object.merge]
    have hvalue : P value := hP.value hnew List.mem_cons_self
    -- Where both hold an object, they merge in turn; the second one gets smaller.
    refine hP.merge (hP.alter h hvalue fun old hold => ?_) (hP.tail hnew)
    exact hP.over_value hold hvalue

end

/-- Inserting a value with the property keeps it. -/
theorem insert (hP : Heritable P) {o : Object} (h : P (.object o)) (key : String) {value : Value}
    (hvalue : P value) : P (.object (o.insert key value)) :=
  hP.alter h hvalue fun _ hold => hP.over_value hold hvalue

/-- An object with one key hands the property up. -/
theorem singleton (hP : Heritable P) (key : String) {value : Value} (hvalue : P value) :
    P (.object [(key, value)]) :=
  hP.insert hP.empty key hvalue

/-- Nesting objects of one key keeps the property. -/
theorem nest (hP : Heritable P) (keys : List String) {value : Value} (hvalue : P value) :
    P (Object.nest keys value) := by
  induction keys with
  | nil => exact hvalue
  | cons key rest ih => exact hP.singleton key ih

/-- Inserting a value with the property under a path keeps it. -/
theorem insertPath (hP : Heritable P) {o : Object} (h : P (.object o)) (path : List String)
    {value : Value} (hvalue : P value) : P (.object (o.insertPath path value)) := by
  cases path with
  | nil => exact h
  | cons key rest => exact hP.insert h key (hP.nest rest hvalue)

end Value.Heritable

end LeaderKey
