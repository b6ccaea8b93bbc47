import LeaderKey.Conflict
import Mathlib.Data.List.Basic

/-!
# What the conflict index holds

The index keeps its slots in strictly ascending order (`ConflictIndex.ascending_ofPlacements`) and,
under a slot, the descriptions of the placements that were added there, in the order of their
arrival (`ConflictIndex.descriptions_ofPlacements`). So a conflict is a slot with two placements or
more, and no slot has two conflicts (`ConflictIndex.mem_conflicts_iff`,
`ConflictIndex.pairwise_conflicts`).
-/

namespace LeaderKey

/-! ## The order of slots -/

instance : Std.TransCmp Slot.order :=
  inferInstanceAs (Std.TransCmp
    (compareLex (compareOn Slot.parent) (compareOn fun slot : Slot => slot.key.toNat)))

/-- Only equal slots tie. -/
theorem Slot.order_eq_iff {a b : Slot} : a.order b = .eq ↔ a = b := by
  unfold Slot.order
  rw [Ordering.then_eq_eq, Std.LawfulEqCmp.compare_eq_iff_eq, Nat.compare_eq_eq, Char.toNat_inj]
  constructor
  · rintro ⟨hparent, hkey⟩
    cases a
    cases b
    cases hparent
    cases hkey
    rfl
  · rintro rfl
    exact ⟨rfl, rfl⟩

/-- A slot before another one is not the same. -/
theorem Slot.ne_of_lt {a b : Slot} (h : a.order b = .lt) : a ≠ b := by
  intro heq
  rw [Slot.order_eq_iff.2 heq] at h
  cases h

namespace ConflictIndex

/-! ## Adding a placement -/

/-- The slots are in strictly ascending order. -/
def Ascending (slots : List (Slot × List String)) : Prop :=
  slots.Pairwise fun a b => a.1.order b.1 = .lt

/-- Looking up a slot stops at the first entry with this slot. -/
theorem lookup_cons_eq (slot first : Slot) (ds : List String) (rest : List (Slot × List String)) :
    List.lookup slot ((first, ds) :: rest) =
      if slot = first then some ds else rest.lookup slot := by
  rw [List.lookup_cons]
  by_cases h : slot = first
  · rw [if_pos h, beq_iff_eq.2 h]
  · rw [if_neg h, beq_eq_false_iff_ne.2 h]

/-- Behind a greater slot, a slot is not found. -/
theorem lookup_eq_none_of_lt {slot : Slot} {slots : List (Slot × List String)}
    (h : ∀ s ∈ slots, slot.order s.1 = .lt) : slots.lookup slot = none := by
  induction slots with
  | nil => rfl
  | cons s rest ih =>
    rw [lookup_cons_eq, if_neg (Slot.ne_of_lt (h s List.mem_cons_self))]
    exact ih fun t ht => h t (List.mem_cons_of_mem _ ht)

/-- A slot in the result of a placement was there, or is the one of the placement. -/
theorem slot_of_mem_place {p : Placement} {slots : List (Slot × List String)}
    {s : Slot × List String} (h : s ∈ place p slots) :
    s.1 = p.slot ∨ ∃ t ∈ slots, t.1 = s.1 := by
  induction slots with
  | nil =>
    rw [place, List.mem_singleton] at h
    exact Or.inl (by rw [h])
  | cons first rest ih =>
    obtain ⟨slot, ds⟩ := first
    rw [place] at h
    split at h
    · rcases List.mem_cons.1 h with rfl | hold
      · exact Or.inl rfl
      · exact Or.inr ⟨s, hold, rfl⟩
    · rcases List.mem_cons.1 h with rfl | hold
      · exact Or.inr ⟨(slot, ds), List.mem_cons_self, rfl⟩
      · exact Or.inr ⟨s, List.mem_cons_of_mem _ hold, rfl⟩
    · rcases List.mem_cons.1 h with rfl | hrest
      · exact Or.inr ⟨(slot, ds), List.mem_cons_self, rfl⟩
      · rcases ih hrest with hnew | ⟨t, ht, heq⟩
        · exact Or.inl hnew
        · exact Or.inr ⟨t, List.mem_cons_of_mem _ ht, heq⟩

/-- A placement keeps the slots in order. -/
theorem ascending_place (p : Placement) {slots : List (Slot × List String)}
    (h : Ascending slots) : Ascending (place p slots) := by
  unfold Ascending at h ⊢
  induction slots with
  | nil => exact List.pairwise_singleton _ _
  | cons first rest ih =>
    obtain ⟨slot, ds⟩ := first
    have hbehind := (List.pairwise_cons.1 h).1
    have hrest := (List.pairwise_cons.1 h).2
    rw [place]
    split
    · rename_i hlt
      refine List.pairwise_cons.2 ⟨fun s hs => ?_, h⟩
      rcases List.mem_cons.1 hs with rfl | hs
      · exact hlt
      · exact Std.TransCmp.lt_trans hlt (hbehind s hs)
    · exact List.pairwise_cons.2 ⟨hbehind, hrest⟩
    · rename_i hgt
      refine List.pairwise_cons.2 ⟨fun s hs => ?_, ih hrest⟩
      rcases slot_of_mem_place hs with hnew | ⟨t, ht, heq⟩
      · rw [hnew]
        exact Std.OrientedCmp.gt_iff_lt.1 hgt
      · rw [← heq]
        exact hbehind t ht

/-- A placement puts its description behind those of its slot, and leaves the other slots alone. -/
theorem lookup_place (p : Placement) {slots : List (Slot × List String)} (h : Ascending slots)
    (slot : Slot) : (place p slots).lookup slot =
      if slot = p.slot then some ((slots.lookup slot).getD [] ++ [p.description])
      else slots.lookup slot := by
  induction slots with
  | nil => exact lookup_cons_eq slot p.slot [p.description] []
  | cons first rest ih =>
    obtain ⟨s, ds⟩ := first
    have hbehind := (List.pairwise_cons.1 h).1
    rw [place]
    split
    · -- The slot is new and comes before all that are there.
      rename_i hlt
      rw [lookup_cons_eq]
      by_cases hslot : slot = p.slot
      · have hnone : ((s, ds) :: rest).lookup slot = none := by
          refine lookup_eq_none_of_lt fun t ht => ?_
          rw [hslot]
          rcases List.mem_cons.1 ht with rfl | ht
          · exact hlt
          · exact Std.TransCmp.lt_trans hlt (hbehind t ht)
        rw [if_pos hslot, if_pos hslot, hnone]
        rfl
      · rw [if_neg hslot, if_neg hslot]
    · rename_i heq
      rw [Slot.order_eq_iff] at heq
      rw [lookup_cons_eq, lookup_cons_eq, heq]
      by_cases hslot : slot = s
      · rw [if_pos hslot, if_pos hslot, if_pos hslot]
        rfl
      · rw [if_neg hslot, if_neg hslot, if_neg hslot]
    · -- The slot belongs further back.
      rename_i hgt
      have hne : s ≠ p.slot := Slot.ne_of_lt (Std.OrientedCmp.gt_iff_lt.1 hgt)
      rw [lookup_cons_eq, lookup_cons_eq, ih (List.pairwise_cons.1 h).2]
      by_cases hslot : slot = s
      · rw [if_pos hslot, if_pos hslot, if_neg (hslot ▸ hne)]
      · rw [if_neg hslot, if_neg hslot]

/-! ## Adding many -/

/-- One more binding is described behind those of its slot. -/
theorem descriptions_add {index : ConflictIndex} (h : Ascending index.slots) (p : Placement)
    (slot : Slot) : (index.add p).descriptions slot =
      index.descriptions slot ++ ([p].filter fun q => q.slot = slot).map (·.description) := by
  unfold descriptions add
  rw [lookup_place p h]
  by_cases hslot : slot = p.slot
  · simp [hslot]
  · simp [hslot, Ne.symm hslot]

/-- The slots are in ascending order, whatever is added. -/
theorem ascending_ofPlacements (ps : List Placement) : Ascending (ofPlacements ps).slots := by
  have hfold (index : ConflictIndex) (h : Ascending index.slots) :
      Ascending (ps.foldl add index).slots := by
    induction ps generalizing index with
    | nil => exact h
    | cons p rest ih => exact ih (index.add p) (ascending_place p h)
  exact hfold {} .nil

/-- Under a slot stand the descriptions of the placements there, in the order of their arrival. -/
theorem descriptions_ofPlacements (ps : List Placement) (slot : Slot) :
    (ofPlacements ps).descriptions slot =
      (ps.filter fun p => p.slot = slot).map (·.description) := by
  have hfold (index : ConflictIndex) (h : Ascending index.slots) :
      (ps.foldl add index).descriptions slot =
        index.descriptions slot ++ (ps.filter fun p => p.slot = slot).map (·.description) := by
    induction ps generalizing index with
    | nil => exact (List.append_nil _).symm
    | cons p rest ih =>
      rw [List.foldl_cons, ih (index.add p) (ascending_place p h), descriptions_add h,
        List.append_assoc, ← List.map_append, ← List.filter_append, List.singleton_append]
  exact hfold {} .nil

/-! ## Conflicts -/

/-- No slot stands twice among ascending ones. -/
theorem Ascending.nodup {slots : List (Slot × List String)} (h : Ascending slots) :
    (slots.map Prod.fst).Nodup := by
  rw [List.Nodup, List.pairwise_map]
  exact h.imp Slot.ne_of_lt

/-- Where no slot stands twice, a look-up finds all that stands there. -/
theorem mem_iff_lookup {slots : List (Slot × List String)} (h : (slots.map Prod.fst).Nodup)
    {slot : Slot} {ds : List String} : (slot, ds) ∈ slots ↔ slots.lookup slot = some ds := by
  induction slots with
  | nil => simp
  | cons first rest ih =>
    obtain ⟨s, es⟩ := first
    obtain ⟨hfirst, hrest⟩ := List.nodup_cons.1 h
    rw [lookup_cons_eq, List.mem_cons, Prod.mk.injEq]
    by_cases hslot : slot = s
    · have hnot : (slot, ds) ∉ rest := by
        rw [hslot]
        exact fun hmem => hfirst (List.mem_map.2 ⟨(s, ds), hmem, rfl⟩)
      rw [if_pos hslot, Option.some.injEq]
      exact ⟨fun hmem => (hmem.resolve_right hnot).2.symm, fun heq => Or.inl ⟨hslot, heq.symm⟩⟩
    · rw [if_neg hslot, ← ih hrest]
      exact ⟨fun hmem => hmem.resolve_left fun heq => hslot heq.1, Or.inr⟩

/-- A conflict is a slot with two descriptions or more. -/
theorem mem_conflicts_iff {index : ConflictIndex} (h : Ascending index.slots) {c : Conflict} :
    c ∈ index.conflicts ↔
      c.descriptions = index.descriptions c.slot ∧ 1 < c.descriptions.length := by
  have hmem : c ∈ index.conflicts ↔
      (c.slot, c.descriptions) ∈ index.slots ∧ 1 < c.descriptions.length := by
    unfold conflicts
    rw [List.mem_map]
    constructor
    · rintro ⟨⟨slot, ds⟩, hfilter, rfl⟩
      simpa using hfilter
    · intro hc
      exact ⟨(c.slot, c.descriptions), by simpa using hc, rfl⟩
  rw [hmem, mem_iff_lookup h.nodup]
  unfold descriptions
  constructor
  · rintro ⟨hlookup, hlength⟩
    rw [hlookup]
    exact ⟨rfl, hlength⟩
  · rintro ⟨hds, hlength⟩
    cases hlookup : index.slots.lookup c.slot with
    | none =>
      rw [hlookup] at hds
      rw [hds] at hlength
      exact absurd hlength (by decide)
    | some ds =>
      rw [hlookup] at hds
      exact ⟨by rw [hds]; rfl, hlength⟩

/-- The conflicts are in the order of their slots, so that no slot has two. -/
theorem pairwise_conflicts {index : ConflictIndex} (h : Ascending index.slots) :
    index.conflicts.Pairwise fun a b => a.slot.order b.slot = .lt := by
  unfold conflicts
  rw [List.pairwise_map]
  exact h.filter _

end ConflictIndex

end LeaderKey
