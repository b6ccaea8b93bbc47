import LeaderKey.Binding

/-!
# Conflicts

Siblings that share a mnemonic are in conflict, because only the first of them can be reached. The
index counts bindings by their slot: the mnemonics that lead to their level, as one text, and their
own mnemonic. It keeps the slots in order, and under each slot the descriptions in the order of
their arrival. `total_add` says that every binding counts once.
-/

namespace LeaderKey

/-- Where a binding stands. -/
structure Slot where
  /-- The mnemonics that lead to its level. -/
  parent : String
  /-- Its own mnemonic. -/
  key : Char
  deriving DecidableEq, Repr

/-- The order of slots: by the parent, then by the mnemonic, both by code points. -/
def Slot.order (a b : Slot) : Ordering :=
  (compare a.parent b.parent).then (compare a.key.toNat b.key.toNat)

/-- A binding as the index sees it. -/
structure Placement where
  /-- Where the binding stands. -/
  slot : Slot
  /-- What it does. -/
  description : String
  deriving DecidableEq, Repr

namespace Binding

mutual

/-- The placements of a binding and of everything below it, parents first. -/
def placements (parent : String) : Binding → List Placement
  | .action label _ => [⟨⟨parent, label.key⟩, label.description⟩]
  | .group label children =>
    ⟨⟨parent, label.key⟩, label.description⟩ :: levelPlacements (parent.push label.key) children

/-- The placements of some siblings and of everything below them. -/
def levelPlacements (parent : String) : List Binding → List Placement
  | [] => []
  | b :: rest => placements parent b ++ levelPlacements parent rest

end

end Binding

/-- Siblings that share a mnemonic. -/
structure Conflict where
  /-- Where they stand. -/
  slot : Slot
  /-- What they do, the first one that can be reached in front. -/
  descriptions : List String
  deriving DecidableEq, Repr

/-- A conflict as text. -/
def Conflict.toText (c : Conflict) : String :=
  c.slot.parent.push c.slot.key ++ ": " ++ " | ".intercalate c.descriptions

/-- Descriptions of bindings by their slots, with the slots in ascending order. -/
structure ConflictIndex where
  /-- The slots that hold bindings, with the descriptions of these in order of arrival. -/
  slots : List (Slot × List String) := []
  deriving DecidableEq

namespace ConflictIndex

/-- Puts a placement into ordered slots. -/
def place (p : Placement) : List (Slot × List String) → List (Slot × List String)
  | [] => [(p.slot, [p.description])]
  | (slot, descriptions) :: rest =>
    match p.slot.order slot with
    | .lt => (p.slot, [p.description]) :: (slot, descriptions) :: rest
    | .eq => (slot, descriptions ++ [p.description]) :: rest
    | .gt => (slot, descriptions) :: place p rest

/-- Adds one binding. -/
def add (index : ConflictIndex) (p : Placement) : ConflictIndex := ⟨place p index.slots⟩

/-- The index of some bindings, added in order. -/
def ofPlacements (ps : List Placement) : ConflictIndex := ps.foldl add {}

/-- The index of a whole tree. -/
def ofTree (bindings : List Binding) : ConflictIndex :=
  ofPlacements (Binding.levelPlacements "" bindings)

/-- The descriptions under a slot. -/
def descriptions (index : ConflictIndex) (slot : Slot) : List String :=
  (index.slots.lookup slot).getD []

/-- Whether a slot holds two bindings or more. -/
def has (index : ConflictIndex) (slot : Slot) : Bool := 1 < (index.descriptions slot).length

/-- The slots that hold two bindings or more, in order. -/
def conflicts (index : ConflictIndex) : List Conflict :=
  (index.slots.filter fun (_, ds) => 1 < ds.length).map fun (slot, ds) => ⟨slot, ds⟩

/-- The number of bindings. -/
def total (index : ConflictIndex) : Nat :=
  index.slots.foldr (fun (_, ds) count => ds.length + count) 0

/-- Every added binding counts once. -/
theorem total_add (index : ConflictIndex) (p : Placement) :
    (index.add p).total = index.total + 1 := by
  obtain ⟨slots⟩ := index
  simp only [add, total]
  induction slots with
  | nil => rfl
  | cons s rest ih =>
    obtain ⟨slot, ds⟩ := s
    rw [place]
    split
    · simp only [List.foldr_cons, List.length_singleton]; omega
    · simp only [List.foldr_cons, List.length_append, List.length_singleton]; omega
    · simp only [List.foldr_cons, ih]; omega

end ConflictIndex

end LeaderKey
