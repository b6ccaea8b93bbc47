import LeaderKey.Proofs.Binding.DepthFirst
import LeaderKey.Proofs.Conflict.Index
import Mathlib.Algebra.BigOperators.Group.List.Basic
import Mathlib.Algebra.GroupWithZero.Nat
import Mathlib.Data.List.Induction
import Mathlib.Data.List.Nodup

/-!
# What the index answers

An index is to answer for the placements that were added to it, whatever they are and in whatever
order they arrive. `Answers` says what that comes to. A hash table with the same slots, in an order
that may change with every placement, gives the same answers (`Table.After.agrees`): the number of
bindings and what a slot holds do not depend on the order, and the conflicts are sorted.
A tree is indexed by its positions, depth first (`Binding.levelPlacements_eq`).
`ConflictIndex.index_accounts` is the whole account.
-/

namespace LeaderKey

namespace ConflictIndex

/-- What an index answers once placements have been added to an empty one, in this order. -/
structure Answers (ps : List Placement) (index : ConflictIndex) : Prop where
  /-- Each of them counts. -/
  total : index.total = ps.length
  /-- A slot is in conflict if two of them or more are there. -/
  has : ∀ slot, index.has slot = true ↔ 2 ≤ ps.countP fun p => p.slot = slot
  /-- These slots are reported, with the descriptions in the order of their arrival. -/
  conflicts : ∀ c, c ∈ index.conflicts ↔ (2 ≤ ps.countP fun p => p.slot = c.slot) ∧
    c.descriptions = (ps.filter fun p => p.slot = c.slot).map (·.description)
  /-- They are reported in strictly ascending order, so that none is reported twice. -/
  ascending : index.conflicts.Pairwise fun a b => a.slot.order b.slot = .lt

variable {ps : List Placement} {p q : Placement} {slots : List (Slot × List String)}

/-! ## Answers -/

/-- The index of one more placement. -/
theorem ofPlacements_concat (ps : List Placement) (p : Placement) :
    ofPlacements (ps ++ [p]) = (ofPlacements ps).add p := by
  rw [ofPlacements, List.foldl_concat, ← ofPlacements]

/-- Every placement counts. -/
theorem total_ofPlacements (ps : List Placement) : (ofPlacements ps).total = ps.length := by
  induction ps using List.reverseRecOn with
  | nil => rfl
  | append_singleton ps p ih => rw [ofPlacements_concat, total_add, ih, List.length_append]; rfl

/-- The number of descriptions under a slot is that of the placements there. -/
theorem length_descriptions_ofPlacements (ps : List Placement) (slot : Slot) :
    ((ofPlacements ps).descriptions slot).length = ps.countP fun p => p.slot = slot := by
  rw [descriptions_ofPlacements, List.length_map, List.countP_eq_length_filter]

/-- An index answers for the placements that were added to it. -/
theorem answers_ofPlacements (ps : List Placement) : Answers ps (ofPlacements ps) where
  total := total_ofPlacements ps
  has slot := by
    rw [ConflictIndex.has, decide_eq_true_eq, length_descriptions_ofPlacements]
    exact Nat.succ_le_iff.symm
  conflicts c := by
    rw [mem_conflicts_iff (ascending_ofPlacements ps), and_comm, descriptions_ofPlacements]
    refine and_congr_left fun hds => ?_
    rw [hds, List.length_map, List.countP_eq_length_filter]
    exact Nat.succ_le_iff.symm
  ascending := pairwise_conflicts (ascending_ofPlacements ps)

/-! ## Calls in another order -/

/-- Ascending slots are determined by what look-ups find there. -/
theorem Ascending.ext {xs ys : List (Slot × List String)} (hxs : Ascending xs)
    (hys : Ascending ys) (h : ∀ slot, xs.lookup slot = ys.lookup slot) : xs = ys := by
  have hperm : xs.Perm ys := by
    refine (List.perm_ext_iff_of_nodup hxs.nodup.of_map hys.nodup.of_map).2 fun s => ?_
    rw [mem_iff_lookup hxs.nodup, mem_iff_lookup hys.nodup, h]
  refine hperm.eq_of_pairwise (fun a b _ _ hab hba => ?_) hxs hys
  exact absurd rfl (Slot.ne_of_lt (Std.TransCmp.lt_trans hab hba))

/-- Placements in different slots can be put in either order. -/
theorem place_place (h : Ascending slots) (hne : p.slot ≠ q.slot) :
    place p (place q slots) = place q (place p slots) := by
  have hp := ascending_place p h
  have hq := ascending_place q h
  refine (ascending_place p hq).ext (ascending_place q hp) fun slot => ?_
  rw [lookup_place p hq, lookup_place q hp, lookup_place q h, lookup_place p h]
  by_cases hslot : slot = p.slot
  · have hother : slot ≠ q.slot := hslot ▸ hne
    rw [if_pos hslot, if_neg hother, if_neg hother, if_pos hslot]
  · rw [if_neg hslot, if_neg hslot]

/-- Neighbouring placements in different slots can be added in either order. -/
theorem ofPlacements_exchange (before after : List Placement) (hne : p.slot ≠ q.slot) :
    ofPlacements (before ++ p :: q :: after) = ofPlacements (before ++ q :: p :: after) := by
  have hadd : ((ofPlacements before).add p).add q = ((ofPlacements before).add q).add p :=
    congrArg ConflictIndex.mk (place_place (ascending_ofPlacements before) hne.symm)
  rw [ofPlacements, List.foldl_append, List.foldl_cons, List.foldl_cons, ← ofPlacements, hadd,
    ofPlacements, ofPlacements, List.foldl_append, List.foldl_cons, List.foldl_cons]

/-! ## Hash tables -/

/-- Descriptions by slots as a hash table holds them, in any order. -/
abbrev Table := List (Slot × List String)

namespace Table

/-- Puts a placement into a table: behind the others of its slot, or into a new slot. -/
def add (table : Table) (p : Placement) : Table :=
  if table.any fun s => s.1 = p.slot then
    table.map fun s => if s.1 = p.slot then (s.1, s.2 ++ [p.description]) else s
  else table ++ [(p.slot, [p.description])]

/-- The number of bindings. -/
def total (table : Table) : Nat := (table.map fun s => s.2.length).sum

/-- Whether a slot holds two bindings or more. -/
def has (table : Table) (slot : Slot) : Bool :=
  ((table.lookup slot).map fun ds => decide (1 < ds.length)).getD false

/-- The slots that hold two bindings or more, sorted. -/
def conflicts (table : Table) : List Conflict :=
  ((table.filter fun (_, ds) => 1 < ds.length).map fun (slot, ds) => ⟨slot, ds⟩).mergeSort
    fun a b : Conflict => (a.slot.order b.slot).isLE

/-- The tables that placements may lead to, added one by one to an empty table. Each of them may
leave the slots in another order. -/
inductive After : List Placement → Table → Prop
  | empty : After [] []
  | add {ps : List Placement} {table shuffled : Table} (h : After ps table) (p : Placement)
      (hshuffled : shuffled.Perm (Table.add table p)) : After (ps ++ [p]) shuffled

end Table

variable {table : Table}

/-- Placements do to a table what they do to the same table in another order. -/
theorem Table.add_perm {other : Table} (h : table.Perm other) (p : Placement) :
    (Table.add table p).Perm (Table.add other p) := by
  unfold Table.add
  rw [h.any_eq]
  split
  · exact h.map _
  · exact h.append_right _

/-- A placement goes past the slots of others. -/
theorem Table.add_cons_of_ne {s : Slot × List String} (h : s.1 ≠ p.slot) (rest : Table) :
    Table.add (s :: rest) p = s :: Table.add rest p := by
  unfold Table.add
  rw [List.any_cons, decide_eq_false h, Bool.false_or]
  split
  · rw [List.map_cons, if_neg h]
  · rfl

/-- Behind the slots of others, a placement opens its own. -/
theorem Table.add_of_forall_ne (h : ∀ s ∈ table, s.1 ≠ p.slot) :
    Table.add table p = table ++ [(p.slot, [p.description])] := by
  induction table with
  | nil => rfl
  | cons s rest ih =>
    have hrest := ih fun t ht => h t (List.mem_cons_of_mem s ht)
    rw [Table.add_cons_of_ne (h s List.mem_cons_self), hrest, List.cons_append]

/-- A placement into the first slot leaves the slots of others alone. -/
theorem Table.add_cons_self (ds : List String) (h : ∀ s ∈ table, s.1 ≠ p.slot) :
    Table.add ((p.slot, ds) :: table) p = (p.slot, ds ++ [p.description]) :: table := by
  have hrest : (table.map fun s => if s.1 = p.slot then (s.1, s.2 ++ [p.description]) else s) =
      table :=
    (List.map_congr_left fun s hs => if_neg (h s hs)).trans (List.map_id table)
  rw [Table.add, List.any_cons, decide_eq_true rfl, Bool.true_or, if_pos rfl, List.map_cons,
    if_pos rfl, hrest]

/-- Among slots in order, a placement does what it does to a table. -/
theorem Table.add_perm_place (p : Placement) (h : Ascending slots) :
    (Table.add slots p).Perm (place p slots) := by
  induction slots with
  | nil => exact .refl _
  | cons first rest ih =>
    obtain ⟨slot, ds⟩ := first
    obtain ⟨hbehind, hrest⟩ := List.pairwise_cons.1 h
    rw [place]
    split
    · rename_i hlt
      have hothers : ∀ s ∈ (slot, ds) :: rest, s.1 ≠ p.slot := by
        refine List.forall_mem_cons.2 ⟨(Slot.ne_of_lt hlt).symm, fun s hs => ?_⟩
        exact (Slot.ne_of_lt (Std.TransCmp.lt_trans hlt (hbehind s hs))).symm
      rw [Table.add_of_forall_ne hothers]
      exact List.perm_append_singleton _ _
    · rename_i heq
      obtain rfl := Slot.order_eq_iff.1 heq
      have hothers : ∀ s ∈ rest, s.1 ≠ p.slot := fun s hs => (Slot.ne_of_lt (hbehind s hs)).symm
      rw [Table.add_cons_self ds hothers]
    · rename_i hgt
      have hne : slot ≠ p.slot := Slot.ne_of_lt (Std.OrientedCmp.gt_iff_lt.1 hgt)
      rw [Table.add_cons_of_ne hne]
      exact (ih hrest).cons _

/-- Placements lead to the tables that hold what the index holds. -/
theorem Table.after_iff : Table.After ps table ↔ table.Perm (ofPlacements ps).slots := by
  constructor
  · intro h
    induction h with
    | empty => exact .refl []
    | @add ps table shuffled _ p hshuffled ih =>
      rw [ofPlacements_concat]
      exact hshuffled.trans ((Table.add_perm ih p).trans
        (Table.add_perm_place p (ascending_ofPlacements ps)))
  · intro h
    induction ps using List.reverseRecOn generalizing table with
    | nil =>
      obtain rfl := h.eq_nil
      exact .empty
    | append_singleton ps p ih =>
      rw [ofPlacements_concat] at h
      have hplace := Table.add_perm_place p (ascending_ofPlacements ps)
      exact .add (ih (.refl _)) p (h.trans hplace.symm)

/-- The answers of a table are those of an index that holds the same. -/
structure Table.Agrees (table : Table) (index : ConflictIndex) : Prop where
  total : Table.total table = index.total
  has : ∀ slot, Table.has table slot = index.has slot
  conflicts : Table.conflicts table = index.conflicts

/-- The number of bindings is the sum over the slots. -/
theorem total_eq_sum (index : ConflictIndex) :
    index.total = (index.slots.map fun s => s.2.length).sum := by
  rw [total, List.sum, List.foldr_map]

/-- What a look-up finds does not depend on the order of the slots. -/
theorem lookup_eq_of_perm (hnodup : (slots.map Prod.fst).Nodup) (h : table.Perm slots)
    (slot : Slot) : table.lookup slot = slots.lookup slot := by
  have htable : (table.map Prod.fst).Nodup := (h.map Prod.fst).nodup_iff.2 hnodup
  refine Option.ext fun ds => ?_
  rw [← mem_iff_lookup htable, ← mem_iff_lookup hnodup, h.mem_iff]

/-- Sorting the conflicts of a table gives those of the index that holds the same. -/
theorem conflicts_eq_of_perm {index : ConflictIndex} (hindex : Ascending index.slots)
    (h : table.Perm index.slots) : Table.conflicts table = index.conflicts := by
  have hperm : (Table.conflicts table).Perm index.conflicts :=
    (List.mergeSort_perm _ _).trans ((h.filter _).map _)
  have hsorted : (Table.conflicts table).Pairwise fun a b => (a.slot.order b.slot).isLE := by
    refine List.pairwise_mergeSort (fun a b c => Std.TransCmp.isLE_trans) (fun a b => ?_) _
    rw [Bool.or_eq_true, or_iff_not_imp_left]
    exact fun hnot => Ordering.isLE_of_eq_lt (Std.OrientedCmp.lt_of_not_isLE hnot)
  refine hperm.eq_of_pairwise (fun a b ha hb hab hba => ?_) hsorted
    ((pairwise_conflicts hindex).imp Ordering.isLE_of_eq_lt)
  -- Of one slot, the index has only one conflict.
  have hslot : a.slot = b.slot := Slot.order_eq_iff.1 (Std.OrientedCmp.isLE_antisymm hab hba)
  have hds : a.descriptions = b.descriptions := by
    rw [((mem_conflicts_iff hindex).1 (hperm.mem_iff.1 ha)).1, ((mem_conflicts_iff hindex).1 hb).1,
      hslot]
  cases a
  cases b
  cases hslot
  cases hds
  rfl

/-- A table answers as the index of the placements that lead to it. -/
theorem Table.After.agrees (h : Table.After ps table) : Table.Agrees table (ofPlacements ps) := by
  have hperm := Table.after_iff.1 h
  have hascending := ascending_ofPlacements ps
  refine ⟨?_, fun slot => ?_, conflicts_eq_of_perm hascending hperm⟩
  · rw [total_eq_sum, Table.total, (hperm.map _).sum_eq]
  · rw [Table.has, ConflictIndex.has, descriptions, lookup_eq_of_perm hascending.nodup hperm]
    cases (ofPlacements ps).slots.lookup slot <;> rfl

end ConflictIndex

/-! ## Trees -/

namespace Binding

/-- The placement of the binding at a position. Its parent are the mnemonics down to its level,
behind those that lead to the siblings. -/
def placement? (parent : String) (siblings : List Binding) (position : List Nat) :
    Option Placement :=
  (node? siblings position).map fun b =>
    ⟨⟨parent ++ String.ofList (mnemonics siblings position.dropLast), b.key⟩, b.label.description⟩

variable {b : Binding} {rest : List Binding} {parent : String} {position : List Nat}

/-- The first of some siblings stands at their level. -/
theorem placement?_zero :
    placement? parent (b :: rest) [0] = some ⟨⟨parent, b.key⟩, b.label.description⟩ := by
  simp [placement?, node?_zero, mnemonics]

/-- What it leads to stands below its mnemonic. -/
theorem placement?_zero_cons (h : position ≠ []) : placement? parent (b :: rest) (0 :: position) =
    placement? (parent.push b.key) b.children position := by
  have hparent (keys : List Char) :
      parent ++ String.ofList (b.key :: keys) = parent.push b.key ++ String.ofList keys := by
    rw [← String.toList_inj]
    simp
  rw [placement?, placement?, node?_zero_cons h, List.dropLast_cons_of_ne_nil h,
    mnemonics_cons List.getElem?_cons_zero, hparent]

/-- The others stand as they do without it. -/
theorem placement?_later :
    placement? parent (b :: rest) (later position) = placement? parent rest position := by
  rw [placement?, placement?, node?_later, dropLast_later, mnemonics_later]

/-- Of siblings, the first one is placed, then what it leads to, then the others. -/
theorem levelPlacements_cons (parent : String) (b : Binding) (rest : List Binding) :
    levelPlacements parent (b :: rest) = ⟨⟨parent, b.key⟩, b.label.description⟩ ::
      levelPlacements (parent.push b.key) b.children ++ levelPlacements parent rest := by
  cases b <;> rfl

/-- The bindings of a tree are placed depth first. -/
theorem levelPlacements_eq (parent : String) (siblings : List Binding) :
    (levelPlacements parent siblings).map some =
      (positions siblings).map (placement? parent siblings) := by
  induction siblings using siblings_induction generalizing parent with
  | nil => rfl
  | cons b rest ihchildren ih =>
    have hchildren : (positions b.children).map (placement? parent (b :: rest) ∘ (0 :: ·)) =
        (positions b.children).map (placement? (parent.push b.key) b.children) :=
      List.map_congr_left fun below hbelow => placement?_zero_cons (ne_nil_of_mem_positions hbelow)
    have hrest : (positions rest).map (placement? parent (b :: rest) ∘ later) =
        (positions rest).map (placement? parent rest) :=
      List.map_congr_left fun _ _ => placement?_later
    rw [levelPlacements_cons, positions_cons, List.map_append, List.map_append, List.map_cons,
      List.map_cons, List.map_map, List.map_map, hchildren, hrest, ihchildren, ih, placement?_zero]

end Binding

namespace ConflictIndex

/-- An index is a faithful account of the placements that were added to it. It answers for them, as
does a hash table in whatever order; neighbours in different slots can be added in either order;
and a tree is indexed by adding its bindings depth first, each below the mnemonics that lead to
its level, so that it counts as many bindings as the tree has positions. -/
theorem index_accounts :
    (∀ ps, Answers ps (ofPlacements ps) ∧
      ∀ table, Table.After ps table → Table.Agrees table (ofPlacements ps)) ∧
    (∀ before p q after, p.slot ≠ q.slot →
      ofPlacements (before ++ p :: q :: after) = ofPlacements (before ++ q :: p :: after)) ∧
    ∀ siblings, ∃ ps positions, Binding.DepthFirst siblings positions ∧
      ps.map some = positions.map (Binding.placement? "" siblings) ∧
      ofTree siblings = ofPlacements ps ∧ (ofTree siblings).total = positions.length := by
  refine ⟨fun ps => ⟨answers_ofPlacements ps, fun table h => h.agrees⟩,
    fun before p q after => ofPlacements_exchange before after, fun siblings => ?_⟩
  have hplaced := Binding.levelPlacements_eq "" siblings
  refine ⟨Binding.levelPlacements "" siblings, Binding.positions siblings,
    Binding.depthFirst_positions siblings, hplaced, rfl, ?_⟩
  rw [ofTree, total_ofPlacements, ← List.length_map (f := some), hplaced, List.length_map]

/-- Two placements in one slot with one in another slot between them. -/
def crossed : List Placement :=
  [⟨⟨"", 'f'⟩, "Files"⟩, ⟨⟨"w", 'f'⟩, "Window"⟩, ⟨⟨"", 'f'⟩, "Find"⟩]

/-- A table that they may lead to, with the slots in descending order. -/
def crossedTable : Table := [(⟨"w", 'f'⟩, ["Window"]), (⟨"", 'f'⟩, ["Files", "Find"])]

/-- The table has the conflict of the index, and so has the index of another order. -/
theorem index_accounts_crossed :
    Table.conflicts crossedTable = (ofPlacements crossed).conflicts ∧
      ofPlacements crossed =
        ofPlacements [⟨⟨"w", 'f'⟩, "Window"⟩, ⟨⟨"", 'f'⟩, "Files"⟩, ⟨⟨"", 'f'⟩, "Find"⟩] := by
  have hafter : Table.After crossed crossedTable := by
    rw [Table.after_iff]
    decide +kernel
  exact ⟨((index_accounts.1 crossed).2 crossedTable hafter).conflicts,
    index_accounts.2.1 [] ⟨⟨"", 'f'⟩, "Files"⟩ ⟨⟨"w", 'f'⟩, "Window"⟩ _ (by decide)⟩

end ConflictIndex

end LeaderKey
