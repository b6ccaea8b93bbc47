import LeaderKey.Proofs.Binding.Position
import Mathlib.Data.List.Basic

/-!
# Positions depth first

A tree is shown depth first: a binding, then what it leads to, then its next sibling.
`Binding.positions` lists the positions of a tree in this order, and `Binding.depthFirst_positions`
says what makes it this order: the list has the positions at which there are bindings, and ascends
lexicographically, so that it has each of them once.
-/

namespace LeaderKey.Binding

/-- Where a position among siblings is once they have another sibling in front of them. -/
def later : List Nat → List Nat
  | [] => []
  | i :: below => (i + 1) :: below

mutual

/-- The positions of the first of some siblings and of what it leads to, depth first. -/
def firstPositions : Binding → List (List Nat)
  | .action _ _ => [[0]]
  | .group _ children => [0] :: (positions children).map (0 :: ·)

/-- The positions of some siblings and of what they lead to, depth first. -/
def positions : List Binding → List (List Nat)
  | [] => []
  | b :: rest => firstPositions b ++ (positions rest).map later

end

/-- The list has the positions of the bindings of a tree, each once, in lexicographic order. -/
structure DepthFirst (siblings : List Binding) (list : List (List Nat)) : Prop where
  /-- There is a binding at each of them, and at no other position. -/
  mem_iff : ∀ position, position ∈ list ↔ (node? siblings position).isSome
  /-- They ascend. -/
  ascending : list.Pairwise (· < ·)

/-- Induction over the siblings of a tree: what holds of no siblings, and of siblings if it holds of
the children of the first one and of the others, holds of all. -/
@[elab_as_elim]
theorem siblings_induction {P : List Binding → Prop} (nil : P [])
    (cons : ∀ b rest, P b.children → P rest → P (b :: rest)) (siblings : List Binding) :
    P siblings := by
  refine positions.induct (fun b => P b.children) P ?_ ?_ nil cons siblings
  · exact fun label actionId => nil
  · exact fun label children ih => ih

variable {siblings rest : List Binding} {b : Binding} {position : List Nat}

/-! ## Siblings with another one in front -/

/-- The empty position stays. -/
theorem later_eq_nil : later position = [] ↔ position = [] := by
  cases position <;> simp [later]

/-- No position comes to the sibling in front. -/
theorem later_ne_zero_cons (below : List Nat) : later position ≠ 0 :: below := by
  cases position <;> simp [later]

/-- The positions of a sibling come to the next index. -/
theorem later_eq_succ_cons {i : Nat} {below : List Nat} :
    later position = (i + 1) :: below ↔ position = i :: below := by
  cases position <;> simp [later]

/-- Positions keep their order. -/
theorem later_lt_later {p q : List Nat} : later p < later q ↔ p < q := by
  cases p <;> cases q <;> simp [later, List.cons_lt_cons_iff]

/-- Among siblings with another one in front, a later position has what the position has without. -/
theorem node?_later : node? (b :: rest) (later position) = node? rest position := by
  match position with
  | [] => rfl
  | [i] => rfl
  | i :: j :: below => rfl

/-- The first of some siblings is at the first position. -/
theorem node?_zero : node? (b :: rest) [0] = some b := rfl

/-- A longer position below the first of some siblings is one among the children. -/
theorem node?_zero_cons (h : position ≠ []) :
    node? (b :: rest) (0 :: position) = node? b.children position := by
  rw [node?_cons _ _ h, List.getElem?_cons_zero, Option.bind_some]

/-- The position above a position moves like it. -/
theorem dropLast_later : (later position).dropLast = later position.dropLast := by
  match position with
  | [] => rfl
  | [i] => rfl
  | i :: j :: below => rfl

/-- The mnemonics of a position are the same without the sibling in front. -/
theorem mnemonics_later :
    mnemonics (b :: rest) (later position) = mnemonics rest position := by
  cases position <;> rfl

/-! ## All positions -/

/-- First come a binding and what it leads to, then the others. -/
theorem positions_cons (b : Binding) (rest : List Binding) : positions (b :: rest) =
    [0] :: (positions b.children).map (0 :: ·) ++ (positions rest).map later := by
  cases b with
  | action label actionId => simp only [positions, firstPositions, children, List.map_nil]
  | group label children => rw [positions, firstPositions, Binding.children]

/-- The positions of a tree are those at which there is a binding. -/
theorem mem_positions : position ∈ positions siblings ↔ (node? siblings position).isSome := by
  induction siblings using siblings_induction generalizing position with
  | nil =>
    cases position with
    | nil => simp [positions, node?]
    | cons i below => simp [positions, isSome_node?_cons]
  | cons b rest ihchildren ih =>
    rw [positions_cons, List.cons_append, List.mem_cons, List.mem_append, List.mem_map,
      List.mem_map]
    cases position with
    | nil => simp [later_eq_nil, ih, node?]
    | cons i below =>
      cases i with
      | zero => simp [later_ne_zero_cons, ihchildren, isSome_node?_cons]
      | succ i => simp [later_eq_succ_cons, ih, isSome_node?_cons]

/-- No binding is at the root of the tree. -/
theorem ne_nil_of_mem_positions (h : position ∈ positions siblings) : position ≠ [] := by
  rintro rfl
  cases mem_positions.1 h

/-- The positions of a tree ascend. -/
theorem pairwise_positions (siblings : List Binding) : (positions siblings).Pairwise (· < ·) := by
  induction siblings using siblings_induction with
  | nil => exact .nil
  | cons b rest ihchildren ih =>
    rw [positions_cons, List.pairwise_append, List.pairwise_cons, List.pairwise_map,
      List.pairwise_map]
    refine ⟨⟨fun p hp => ?_, ?_⟩, ih.imp later_lt_later.2, fun p hp q hq => ?_⟩
    · obtain ⟨below, hbelow, rfl⟩ := List.mem_map.1 hp
      obtain ⟨i, below, rfl⟩ := List.exists_cons_of_ne_nil (ne_nil_of_mem_positions hbelow)
      exact List.cons_lt_cons_iff.2 (Or.inr ⟨rfl, List.nil_lt_cons i below⟩)
    · exact ihchildren.imp fun h => List.cons_lt_cons_iff.2 (Or.inr ⟨rfl, h⟩)
    · -- What the first sibling leads to has the index zero, and all others have a greater one.
      have hzero : ∃ below, p = 0 :: below := by
        rcases List.mem_cons.1 hp with rfl | hp
        · exact ⟨[], rfl⟩
        · obtain ⟨below, -, rfl⟩ := List.mem_map.1 hp
          exact ⟨below, rfl⟩
      obtain ⟨below, rfl⟩ := hzero
      obtain ⟨other, hother, rfl⟩ := List.mem_map.1 hq
      obtain ⟨i, others, rfl⟩ := List.exists_cons_of_ne_nil (ne_nil_of_mem_positions hother)
      exact List.cons_lt_cons_iff.2 (Or.inl i.succ_pos)

/-- The positions of a tree are listed depth first. -/
theorem depthFirst_positions (siblings : List Binding) :
    DepthFirst siblings (positions siblings) :=
  ⟨fun _ => mem_positions, pairwise_positions siblings⟩

end LeaderKey.Binding
