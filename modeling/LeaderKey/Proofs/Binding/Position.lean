import LeaderKey.Binding
import Mathlib.Data.List.Basic

/-!
# Positions in a binding tree

Two bindings of a tree may be equal, so a binding of a tree is given by its position: its index at
each level, from the root level down. A walk leads to a position (`Binding.locate?`), and what it
gives is the binding there (`Binding.walk?_eq`). Every position has the mnemonics of the bindings
from the root level down to it; `Binding.located_iff_not_shadowed` is the theorem that a walk with
these mnemonics leads back to the position unless an earlier sibling, of the binding or of a group
above it, takes one of them.
-/

namespace LeaderKey.Binding

/-- The binding at a position. At the root of the tree, above the root level, there is none. -/
def node? (siblings : List Binding) : List Nat → Option Binding
  | [] => none
  | [i] => siblings[i]?
  | i :: below => siblings[i]?.bind fun b => node? b.children below

/-- The mnemonics of the bindings from the root level down to a position. -/
def mnemonics (siblings : List Binding) : List Nat → List Char
  | [] => []
  | i :: below =>
    match siblings[i]? with
    | some b => b.key :: mnemonics b.children below
    | none => []

/-- The position that a walk leads to. At each level it takes the first binding with the mnemonic;
the empty walk stays at the root of the tree. -/
def locate? (siblings : List Binding) : List Char → Option (List Nat)
  | [] => some []
  | key :: keys =>
    (siblings.findIdx? fun b => b.key == key).bind fun i =>
      siblings[i]?.bind fun b => (locate? b.children keys).map (i :: ·)

/-- The binding at a position, or a group above it, has an earlier sibling with its mnemonic. -/
def Shadowed (siblings : List Binding) (position : List Nat) : Prop :=
  ∃ above i below, position = above ++ i :: below ∧
    ∃ b, node? siblings (above ++ [i]) = some b ∧
      ∃ j < i, ∃ a, node? siblings (above ++ [j]) = some a ∧ a.key = b.key

variable {siblings : List Binding} {i : Nat} {below : List Nat} {b : Binding}

/-! ## Positions -/

/-- A longer position goes on below the binding at its first index. -/
theorem node?_cons (siblings : List Binding) (i : Nat) (h : below ≠ []) :
    node? siblings (i :: below) = siblings[i]?.bind fun b => node? b.children below := by
  cases below with
  | nil => contradiction
  | cons j below => rfl

/-- Below the binding at its first index, a longer position is one among the children. -/
theorem node?_cons_append (h : siblings[i]? = some b) (above : List Nat) (j : Nat) :
    node? siblings (i :: above ++ [j]) = node? b.children (above ++ [j]) := by
  rw [List.cons_append, node?_cons siblings i (List.concat_ne_nil j above), h, Option.bind_some]

/-- There is a binding at a position if there is one at its first index and, unless the position
ends there, one at the rest of it among the children. -/
theorem isSome_node?_cons : (node? siblings (i :: below)).isSome ↔
    ∃ b, siblings[i]? = some b ∧ (below = [] ∨ (node? b.children below).isSome) := by
  by_cases hbelow : below = []
  · have hnode : node? siblings (i :: below) = siblings[i]? := by rw [hbelow, node?]
    rw [hnode, Option.isSome_iff_exists]
    exact exists_congr fun b => (and_iff_left (Or.inl hbelow)).symm
  · rw [node?_cons siblings i hbelow, Option.isSome_bind]
    cases siblings[i]? <;> simp [hbelow]

/-- The mnemonics of a position begin with that of the binding at its first index. -/
theorem mnemonics_cons (h : siblings[i]? = some b) (below : List Nat) :
    mnemonics siblings (i :: below) = b.key :: mnemonics b.children below := by
  rw [mnemonics, h]

/-! ## Walks to positions -/

/-- The first index with the mnemonic of a binding is the index of this binding if no binding before
it has this mnemonic. -/
theorem findIdx?_key (h : siblings[i]? = some b) :
    (siblings.findIdx? fun a => a.key == b.key) = some i ↔
      ¬ ∃ j < i, ∃ a, siblings[j]? = some a ∧ a.key = b.key := by
  obtain ⟨hi, hb⟩ := List.getElem?_eq_some_iff.1 h
  rw [List.findIdx?_eq_some_iff_getElem]
  constructor
  · rintro ⟨_, _, hbefore⟩ ⟨j, hj, a, ha, hkey⟩
    obtain ⟨_, rfl⟩ := List.getElem?_eq_some_iff.1 ha
    exact hbefore j hj (beq_iff_eq.2 hkey)
  · intro hnone
    refine ⟨hi, by rw [hb, beq_iff_eq], fun j hj hkey => hnone ⟨j, hj, siblings[j], ?_, ?_⟩⟩
    · exact List.getElem?_eq_getElem (Nat.lt_trans hj hi)
    · exact beq_iff_eq.1 hkey

/-- A walk leads to a position if its first mnemonic selects the first index, and the rest of it
leads to the rest of the position. -/
theorem locate?_cons_eq_some {key : Char} {keys : List Char} {position : List Nat} :
    locate? siblings (key :: keys) = some position ↔
      ∃ i b below, (siblings.findIdx? fun b => b.key == key) = some i ∧ siblings[i]? = some b ∧
        locate? b.children keys = some below ∧ i :: below = position := by
  simp only [locate?, Option.bind_eq_some_iff, Option.map_eq_some_iff]
  constructor
  · rintro ⟨i, hi, b, hb, below, hbelow, heq⟩
    exact ⟨i, b, below, hi, hb, hbelow, heq⟩
  · rintro ⟨i, b, below, hi, hb, hbelow, heq⟩
    exact ⟨i, hi, b, hb, below, hbelow, heq⟩

/-- A position at which a walk arrives has the mnemonics of the walk. -/
theorem mnemonics_of_locate? {keys : List Char} {position : List Nat}
    (h : locate? siblings keys = some position) : mnemonics siblings position = keys := by
  induction keys generalizing siblings position with
  | nil =>
    rw [locate?, Option.some.injEq] at h
    rw [← h, mnemonics]
  | cons key keys ih =>
    obtain ⟨i, b, below, hi, hb, hbelow, rfl⟩ := locate?_cons_eq_some.1 h
    have hkey : b.key = key := by
      obtain ⟨hlt, hfound, -⟩ := List.findIdx?_eq_some_iff_getElem.1 hi
      rw [List.getElem?_eq_getElem hlt, Option.some.injEq] at hb
      rw [← hb]
      exact beq_iff_eq.1 hfound
    rw [mnemonics_cons hb, hkey, ih hbelow]

/-- A walk with one mnemonic or more arrives below the root of the tree. -/
theorem ne_nil_of_locate? {key : Char} {keys : List Char} {position : List Nat}
    (h : locate? siblings (key :: keys) = some position) : position ≠ [] := by
  obtain ⟨i, b, below, -, -, -, rfl⟩ := locate?_cons_eq_some.1 h
  exact List.cons_ne_nil i below

/-- What a mnemonic selects is the binding at the first index with this mnemonic. -/
theorem select?_eq (siblings : List Binding) (key : Char) :
    select? siblings key = (siblings.findIdx? fun b => b.key == key).bind (siblings[·]?) :=
  List.find?_eq_bind_findIdx?_getElem?

/-- Below the binding at its first index, a longer position goes on among the children. -/
theorem bind_node?_cons (h : siblings[i]? = some b) {key : Char} {keys : List Char} :
    ((locate? b.children (key :: keys)).map (i :: ·)).bind (node? siblings) =
      (locate? b.children (key :: keys)).bind (node? b.children) := by
  match hlocate : locate? b.children (key :: keys) with
  | none => rfl
  | some below =>
    rw [Option.map_some, Option.bind_some, Option.bind_some,
      node?_cons siblings i (ne_nil_of_locate? hlocate), h, Option.bind_some]

/-- A walk gives the binding at the position to which it leads. -/
theorem walk?_eq (siblings : List Binding) (keys : List Char) :
    walk? siblings keys = (locate? siblings keys).bind (node? siblings) := by
  induction keys generalizing siblings with
  | nil => rfl
  | cons key rest ih =>
    let first := siblings.findIdx? fun b => b.key == key
    cases rest with
    | nil =>
      calc walk? siblings [key]
          = first.bind (siblings[·]?) := select?_eq siblings key
        _ = first.bind fun i => siblings[i]?.bind fun _ => node? siblings [i] := by
          congr 1
          funext i
          match hb : siblings[i]? with
          | none => rfl
          | some b => exact hb.symm
        _ = (locate? siblings [key]).bind (node? siblings) := by
          simp only [locate?, Option.bind_assoc, first]
          rfl
    | cons next rest =>
      calc walk? siblings (key :: next :: rest)
          = (select? siblings key).bind fun b => walk? b.children (next :: rest) := rfl
        _ = first.bind fun i => siblings[i]?.bind fun b => walk? b.children (next :: rest) := by
          rw [select?_eq, Option.bind_assoc]
        _ = first.bind fun i => siblings[i]?.bind fun b =>
            ((locate? b.children (next :: rest)).map (i :: ·)).bind (node? siblings) := by
          congr 1
          funext i
          match hb : siblings[i]? with
          | none => rfl
          | some b => exact (ih b.children).trans (bind_node?_cons hb).symm
        _ = (locate? siblings (key :: next :: rest)).bind (node? siblings) := by
          rw [locate?, Option.bind_assoc]
          simp only [Option.bind_assoc, first]

/-- A walk with the mnemonics of a position leads back to it if no earlier sibling has its first
mnemonic, and the rest of them leads back to the rest of it. -/
theorem locate?_mnemonics_cons (h : siblings[i]? = some b) :
    locate? siblings (mnemonics siblings (i :: below)) = some (i :: below) ↔
      (¬ ∃ j < i, ∃ a, siblings[j]? = some a ∧ a.key = b.key) ∧
        locate? b.children (mnemonics b.children below) = some below := by
  rw [mnemonics_cons h, locate?_cons_eq_some, ← findIdx?_key h]
  constructor
  · rintro ⟨i', b', below', hi, hb, hbelow, heq⟩
    obtain ⟨rfl, rfl⟩ := List.cons.inj heq
    rw [h, Option.some.injEq] at hb
    rw [← hb] at hbelow
    exact ⟨hi, hbelow⟩
  · rintro ⟨hi, hbelow⟩
    exact ⟨i, b, below, hi, h, hbelow, rfl⟩

/-! ## Shadows -/

/-- The root of the tree has no siblings. -/
theorem not_shadowed_nil : ¬ Shadowed siblings [] := by
  rintro ⟨above, i, below, heq, -⟩
  exact absurd heq.symm (List.append_ne_nil_of_right_ne_nil above (List.cons_ne_nil i below))

/-- A position is shadowed at its first index or among the children of the binding there. -/
theorem shadowed_cons (h : siblings[i]? = some b) : Shadowed siblings (i :: below) ↔
    (∃ j < i, ∃ a, siblings[j]? = some a ∧ a.key = b.key) ∨ Shadowed b.children below := by
  constructor
  · rintro ⟨above, i', below', heq, hshadow⟩
    cases above with
    | nil =>
      obtain ⟨rfl, rfl⟩ := List.cons.inj heq
      obtain ⟨b', hb', hearlier⟩ := hshadow
      have hsame : b = b' := Option.some.inj (h.symm.trans hb')
      exact Or.inl (hsame ▸ hearlier)
    | cons first above =>
      obtain ⟨rfl, rfl⟩ := List.cons.inj heq
      refine Or.inr ⟨above, i', below', rfl, ?_⟩
      simpa only [node?_cons_append h] using hshadow
  · rintro (⟨j, hj, a, ha, hkey⟩ | ⟨above, i', below', rfl, hshadow⟩)
    · exact ⟨[], i, below, rfl, b, h, j, hj, a, ha, hkey⟩
    · refine ⟨i :: above, i', below', rfl, ?_⟩
      simpa only [node?_cons_append h] using hshadow

/-- A walk with the mnemonics of a position leads back to it exactly if the position is not
shadowed. -/
theorem located_iff_not_shadowed {position : List Nat}
    (h : position = [] ∨ (node? siblings position).isSome) :
    locate? siblings (mnemonics siblings position) = some position ↔
      ¬ Shadowed siblings position := by
  induction position generalizing siblings with
  | nil => exact iff_of_true rfl not_shadowed_nil
  | cons i below ih =>
    obtain ⟨b, hb, hbelow⟩ := isSome_node?_cons.1 (h.resolve_left (List.cons_ne_nil i below))
    rw [locate?_mnemonics_cons hb, shadowed_cons hb, ih hbelow, not_or]

end LeaderKey.Binding
