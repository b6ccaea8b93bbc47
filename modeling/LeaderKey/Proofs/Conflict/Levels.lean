import LeaderKey.Proofs.Compile.Entries
import LeaderKey.Proofs.Conflict.Index
import LeaderKey.Proofs.Mnemonic.Sort

/-!
# Conflicts and sibling lists

A sequence of mnemonics names a sibling list: the root list, or the children of the group it leads
to. If sibling groups share a mnemonic, it names the children of each of them (`Binding.levelsAt`).
The index knows a sibling list by its mnemonics alone, so `ConflictIndex.conflicts_by_path` says
what it reports: a mnemonic that occurs twice or more in the lists of one name, taken together. Where
sibling groups have mnemonics of their own these are the repetitions in single sibling lists; where
they do not, bindings of two groups are reported that are no siblings
(`ConflictIndex.conflict_across_groups`).
-/

namespace LeaderKey

namespace Binding

/-- The sibling lists that a sequence of mnemonics names, in the order in which they are shown. -/
def levelsAt (siblings : List Binding) : List Char → List (List Binding)
  | [] => [siblings]
  | key :: keys =>
    (siblings.filter fun b => b.isGroup && b.key == key).flatMap fun b => levelsAt b.children keys

/-- The descriptions of the siblings with a mnemonic, in the order in which they are shown. -/
def described (key : Char) (siblings : List Binding) : List String :=
  (siblings.filter fun b => b.key == key).map (·.label.description)

/-- The descriptions of the bindings with a mnemonic in the sibling lists of one name. -/
def describedAt (siblings : List Binding) (keys : List Char) (key : Char) : List String :=
  (levelsAt siblings keys).flatMap (described key)

/-- No two groups of a sibling list share a mnemonic, at any depth. -/
def SeparateGroups (siblings : List Binding) : Prop :=
  ∀ keys, ∀ level ∈ levelsAt siblings keys, ((level.filter isGroup).map key).Nodup

/-! ## Levels -/

/-- Below a first mnemonic, a sequence names what the rest of it names in a group there. -/
theorem mem_levelsAt_cons {siblings level : List Binding} {k : Char} {keys : List Char} :
    level ∈ levelsAt siblings (k :: keys) ↔
      ∃ g ∈ siblings, g.isGroup = true ∧ g.key = k ∧ level ∈ levelsAt g.children keys := by
  rw [levelsAt, List.mem_flatMap]
  constructor
  · rintro ⟨g, hg, hlevel⟩
    obtain ⟨hmem, hkey⟩ := List.mem_filter.1 hg
    rw [Bool.and_eq_true, beq_iff_eq] at hkey
    exact ⟨g, hmem, hkey.1, hkey.2, hlevel⟩
  · rintro ⟨g, hmem, hgroup, hkey, hlevel⟩
    refine ⟨g, List.mem_filter.2 ⟨hmem, ?_⟩, hlevel⟩
    rw [Bool.and_eq_true, beq_iff_eq]
    exact ⟨hgroup, hkey⟩

/-- In two lists together, a sequence of mnemonics names what it names in the first and in the
second. -/
theorem describedAt_append (xs ys : List Binding) (keys : List Char) (key : Char) :
    describedAt (xs ++ ys) keys key = describedAt xs keys key ++ describedAt ys keys key := by
  unfold describedAt
  cases keys with
  | nil => simp [levelsAt, described]
  | cons k keys => simp [levelsAt]

/-- What holds of every sibling list of a tree holds of its root level and of every sibling list in
one of the groups there. -/
theorem forall_levels_iff {P : List Binding → Prop} {siblings : List Binding} :
    (∀ keys, ∀ level ∈ levelsAt siblings keys, P level) ↔
      P siblings ∧ ∀ g ∈ siblings, g.isGroup = true →
        ∀ keys, ∀ level ∈ levelsAt g.children keys, P level := by
  constructor
  · intro h
    refine ⟨h [] siblings List.mem_cons_self, fun g hg hgroup keys level hlevel => ?_⟩
    exact h (g.key :: keys) level (mem_levelsAt_cons.2 ⟨g, hg, hgroup, rfl, hlevel⟩)
  · rintro ⟨hroot, hbelow⟩ keys level hlevel
    match keys with
    | [] =>
      rw [List.mem_singleton.1 hlevel]
      exact hroot
    | k :: keys =>
      obtain ⟨g, hg, hgroup, -, hlevel⟩ := mem_levelsAt_cons.1 hlevel
      exact hbelow g hg hgroup keys level hlevel

/-- At most one group of separate groups has a given mnemonic. -/
theorem SeparateGroups.length_groups_le {siblings : List Binding} (h : SeparateGroups siblings)
    (k : Char) : (siblings.filter fun b => b.isGroup && b.key == k).length ≤ 1 := by
  have hnodup : ((siblings.filter isGroup).map key).Nodup := h [] siblings List.mem_cons_self
  have hcount := List.nodup_iff_count_le_one.1 hnodup k
  calc (siblings.filter fun b => b.isGroup && b.key == k).length
      = ((siblings.filter isGroup).map key).count k := by
        rw [List.count_eq_countP, List.countP_map, List.countP_filter, List.countP_eq_length_filter]
        congr 2
        funext b
        exact Bool.and_comm _ _
    _ ≤ 1 := hcount

/-- Where groups are separate, a sequence of mnemonics names at most one sibling list. -/
theorem SeparateGroups.length_levelsAt_le (keys : List Char) :
    ∀ {siblings : List Binding}, SeparateGroups siblings → (levelsAt siblings keys).length ≤ 1 := by
  induction keys with
  | nil => exact fun _ => Nat.le_refl 1
  | cons k keys ih =>
    intro siblings h
    have hle := h.length_groups_le k
    have hmem : ∀ g ∈ siblings.filter fun b => b.isGroup && b.key == k,
        g ∈ siblings ∧ g.isGroup = true := by
      intro g hg
      rw [List.mem_filter, Bool.and_eq_true] at hg
      exact ⟨hg.1, hg.2.1⟩
    rw [levelsAt]
    generalize (siblings.filter fun b => b.isGroup && b.key == k) = groups at hle hmem
    match groups, hle with
    | [], _ => exact Nat.zero_le 1
    | [g], _ =>
      obtain ⟨hg, hgroup⟩ := hmem g List.mem_cons_self
      rw [List.flatMap_singleton]
      exact ih ((forall_levels_iff.1 h).2 g hg hgroup)

/-! ## Placements -/

mutual

/-- Everything in a binding is placed at or below its own level. -/
theorem level_isPrefix_placements (parent : String) : ∀ b : Binding,
    ∀ p ∈ placements parent b, parent.toList <+: p.slot.parent.toList
  | .action label _, p, hp => by
    rw [placements, List.mem_singleton] at hp
    subst hp
    exact List.prefix_refl _
  | .group label children, p, hp => by
    rw [placements] at hp
    rcases List.mem_cons.1 hp with rfl | hbelow
    · exact List.prefix_refl _
    · have hchild := level_isPrefix_levelPlacements (parent.push label.key) children p hbelow
      rw [String.toList_push] at hchild
      exact (List.prefix_append _ _).trans hchild

/-- Everything in some siblings is placed at or below their level. -/
theorem level_isPrefix_levelPlacements (parent : String) : ∀ bs : List Binding,
    ∀ p ∈ levelPlacements parent bs, parent.toList <+: p.slot.parent.toList
  | [], p, hp => by cases hp
  | b :: rest, p, hp => by
    rw [levelPlacements] at hp
    rcases List.mem_append.1 hp with hfirst | hrest
    · exact level_isPrefix_placements parent b p hfirst
    · exact level_isPrefix_levelPlacements parent rest p hrest

end

/-- A slot that is not at or below a level holds nothing from there. -/
theorem filter_levelPlacements_eq_nil {parent : String} {slot : Slot} {bs : List Binding}
    (h : ¬ parent.toList <+: slot.parent.toList) :
    (levelPlacements parent bs).filter (fun p => p.slot = slot) = [] := by
  refine List.filter_eq_nil_iff.2 fun p hp hslot => h ?_
  rw [← of_decide_eq_true hslot]
  exact level_isPrefix_levelPlacements parent bs p hp

/-- A binding itself is placed in the slot at its own level that has its mnemonic. -/
theorem described_label {parent : String} {slot : Slot} {keys : List Char} (label : Label)
    (h : slot.parent.toList = parent.toList ++ keys) :
    ([⟨⟨parent, label.key⟩, label.description⟩].filter fun p : Placement => p.slot = slot).map
        (·.description) =
      if keys = [] ∧ label.key = slot.key then [label.description] else [] := by
  have hslot : (⟨parent, label.key⟩ : Slot) = slot ↔ keys = [] ∧ label.key = slot.key := by
    constructor
    · rintro rfl
      exact ⟨List.self_eq_append_right.1 h, rfl⟩
    · rintro ⟨rfl, hkey⟩
      rw [List.append_nil] at h
      rw [hkey, ← String.toList_inj.1 h]
  by_cases heq : (⟨parent, label.key⟩ : Slot) = slot
  · rw [if_pos (hslot.1 heq)]
    simp [heq]
  · rw [if_neg fun hboth => heq (hslot.2 hboth)]
    simp [heq]

/-- At their own level, of a binding stands what it does, if it has the mnemonic. -/
theorem describedAt_singleton_nil (b : Binding) (key : Char) :
    describedAt [b] [] key = if b.key = key then [b.label.description] else [] := by
  by_cases h : b.key = key <;> simp [describedAt, levelsAt, described, h]

/-- An action has nothing below its level. -/
theorem describedAt_action_cons (label : Label) (actionId : String) (k : Char) (keys : List Char)
    (key : Char) : describedAt [.action label actionId] (k :: keys) key = [] := by
  simp [describedAt, levelsAt, isGroup]

/-- A group has its children below its level, under its mnemonic. -/
theorem describedAt_group_cons (label : Label) (children : List Binding) (k : Char)
    (keys : List Char) (key : Char) :
    describedAt [.group label children] (k :: keys) key =
      if label.key = k then describedAt children keys key else [] := by
  have hkey : (Binding.group label children).key = label.key := rfl
  by_cases h : label.key = k <;> simp [describedAt, levelsAt, isGroup, hkey, Binding.children, h]

mutual

/-- In a slot below its level, a binding places what the mnemonics to this slot name in it. -/
theorem described_placements {slot : Slot} (parent : String) (keys : List Char)
    (h : slot.parent.toList = parent.toList ++ keys) : ∀ b : Binding,
    ((placements parent b).filter fun p => p.slot = slot).map (·.description) =
      describedAt [b] keys slot.key
  | .action label actionId => by
    rw [placements, described_label label h]
    match keys with
    | [] =>
      rw [describedAt_singleton_nil]
      exact if_congr (and_iff_right rfl) rfl rfl
    | k :: keys => simp [describedAt_action_cons]
  | .group label children => by
    rw [placements, ← List.singleton_append, List.filter_append, List.map_append,
      described_label label h]
    match keys with
    | [] =>
      -- Everything below the group stands at a longer path than the slot.
      have hbelow : ¬ (parent.push label.key).toList <+: slot.parent.toList := by
        intro hle
        have hlength := hle.length_le
        rw [String.toList_push, h, List.append_nil, List.length_append] at hlength
        exact absurd hlength (Nat.not_succ_le_self _)
      rw [filter_levelPlacements_eq_nil hbelow, describedAt_singleton_nil, List.map_nil,
        List.append_nil]
      exact if_congr (and_iff_right rfl) rfl rfl
    | k :: keys =>
      rw [describedAt_group_cons, if_neg (fun hboth => List.cons_ne_nil _ _ hboth.1),
        List.nil_append]
      by_cases hk : label.key = k
      · have hbelow : slot.parent.toList = (parent.push label.key).toList ++ keys := by
          rw [h, hk, String.toList_push, List.append_assoc, List.singleton_append]
        rw [if_pos hk, described_levelPlacements (parent.push label.key) keys hbelow children]
      · have hbelow : ¬ (parent.push label.key).toList <+: slot.parent.toList := by
          rw [h, String.toList_push, List.prefix_append_right_inj, List.cons_prefix_cons]
          exact fun hcons => hk hcons.1
        rw [if_neg hk, filter_levelPlacements_eq_nil hbelow]
        rfl

/-- In a slot below their level, siblings place what the mnemonics to this slot name in them. -/
theorem described_levelPlacements {slot : Slot} (parent : String) (keys : List Char)
    (h : slot.parent.toList = parent.toList ++ keys) : ∀ bs : List Binding,
    ((levelPlacements parent bs).filter fun p => p.slot = slot).map (·.description) =
      describedAt bs keys slot.key
  | [] => by cases keys <;> rfl
  | b :: rest => by
    rw [levelPlacements, List.filter_append, List.map_append, described_placements parent keys h b,
      described_levelPlacements parent keys h rest, ← describedAt_append, List.singleton_append]

end

end Binding

namespace ConflictIndex

/-- Under a slot, the index of a tree has what the mnemonics to this slot name in the tree. -/
theorem descriptions_ofTree (siblings : List Binding) (slot : Slot) :
    (ofTree siblings).descriptions slot =
      Binding.describedAt siblings slot.parent.toList slot.key := by
  rw [ofTree, descriptions_ofPlacements]
  exact Binding.described_levelPlacements "" slot.parent.toList rfl siblings

/-- The index of a tree has its slots in ascending order. -/
theorem ascending_ofTree (siblings : List Binding) : Ascending (ofTree siblings).slots :=
  ascending_ofPlacements _

/-- A conflict of a tree is a mnemonic with two bindings or more in the sibling lists of one name. -/
theorem mem_conflicts_ofTree {siblings : List Binding} {c : Conflict} :
    c ∈ (ofTree siblings).conflicts ↔ 2 ≤ c.descriptions.length ∧
      c.descriptions = Binding.describedAt siblings c.slot.parent.toList c.slot.key := by
  rw [mem_conflicts_iff (ascending_ofTree siblings), descriptions_ofTree]
  exact And.comm

/-- A sibling list of the tree repeats a mnemonic: the conflict is named by the mnemonics to this
list and describes its siblings with the repeated one. -/
def Repeats (siblings : List Binding) (c : Conflict) : Prop :=
  2 ≤ c.descriptions.length ∧
    ∃ level ∈ Binding.levelsAt siblings c.slot.parent.toList,
      c.descriptions = Binding.described c.slot.key level

/-- The conflicts of a tree, with their slots in strictly ascending order, are the mnemonics that
occur twice or more in the sibling lists of one name, taken together. Where the groups of a sibling
list all have mnemonics of their own, they are the repetitions in single sibling lists. -/
theorem conflicts_by_path (siblings : List Binding) :
    (∀ c, c ∈ (ofTree siblings).conflicts ↔
      2 ≤ c.descriptions.length ∧
        c.descriptions = Binding.describedAt siblings c.slot.parent.toList c.slot.key) ∧
    ((ofTree siblings).conflicts.Pairwise fun a b => a.slot.order b.slot = .lt) ∧
    (Binding.SeparateGroups siblings →
      ∀ c, c ∈ (ofTree siblings).conflicts ↔ Repeats siblings c) := by
  refine ⟨fun c => mem_conflicts_ofTree, pairwise_conflicts (ascending_ofTree siblings),
    fun hseparate c => ?_⟩
  rw [mem_conflicts_ofTree]
  refine and_congr_right fun hlength => ?_
  have hone := hseparate.length_levelsAt_le c.slot.parent.toList
  unfold Binding.describedAt
  generalize Binding.levelsAt siblings c.slot.parent.toList = levels at hone
  match levels, hone with
  | [], _ =>
    constructor
    · intro hnil
      rw [hnil, List.flatMap_nil] at hlength
      exact absurd hlength (Nat.not_succ_le_zero 1)
    · rintro ⟨level, hlevel, -⟩
      cases hlevel
  | [level], _ =>
    rw [List.flatMap_singleton]
    constructor
    · exact fun heq => ⟨level, List.mem_cons_self, heq⟩
    · rintro ⟨_, hlevel, heq⟩
      rw [heq, List.mem_singleton.1 hlevel]

/-- A tree of two groups with mnemonics of their own, in one of which siblings share one. -/
def repeatedBelow : List Binding :=
  [.group ⟨'v', .ofChar 'v', "View"⟩ [.action ⟨'s', .ofChar 's', "Side"⟩ "SideBar"],
    .group ⟨'w', .ofChar 'w', "Windows"⟩
      [.action ⟨'s', .ofChar 's', "Split"⟩ "SplitRight",
        .action ⟨'s', .ofChar 's', "Stretch"⟩ "StretchRight"]]

/-- The repetition is reported, and the binding of the other group is not part of it. -/
theorem conflicts_by_path_repeatedBelow :
    Binding.SeparateGroups repeatedBelow ∧
      (⟨⟨"w", 's'⟩, ["Split", "Stretch"]⟩ : Conflict) ∈ (ofTree repeatedBelow).conflicts := by
  have hseparate : Binding.SeparateGroups repeatedBelow := by
    refine Binding.forall_levels_iff.2 ⟨by decide, fun g hg _ => Binding.forall_levels_iff.2 ?_⟩
    simp only [repeatedBelow, List.mem_cons, List.not_mem_nil, or_false] at hg
    rcases hg with rfl | rfl <;> simp [Binding.children, Binding.isGroup]
  refine ⟨hseparate, ((conflicts_by_path repeatedBelow).2.2 hseparate _).2 ⟨by decide, ?_⟩⟩
  exact ⟨_, List.mem_cons_self, rfl⟩

/-- A document in which two sibling groups share a mnemonic. -/
def twinGroups : Document :=
  ⟨[("bindings", .object [
    ("w1", .object [("description", .string "Windows"), ("bindings", .object [
      ("s", .object [("description", .string "Split"), ("actionId", .string "SplitRight")])])]),
    ("w2", .object [("description", .string "Write"), ("bindings", .object [
      ("s", .object [("description", .string "Save"), ("actionId", .string "SaveAll")])])])])]⟩

/-- The actions in these groups are reported as a conflict, though each is alone in its list. -/
theorem conflict_across_groups :
    ∃ config, (twinGroups.compile .ofChar).outcome = .ok config ∧
      (⟨⟨"w", 's'⟩, ["Split", "Save"]⟩ : Conflict) ∈ (ofTree config.bindings).conflicts ∧
      ¬ Repeats config.bindings ⟨⟨"w", 's'⟩, ["Split", "Save"]⟩ := by
  have h (chords : ChordSource) : (twinGroups.compile chords).outcome =
      .ok ⟨{}, [.group ⟨'w', chords 'w', "Windows"⟩
          [.action ⟨'s', chords 's', "Split"⟩ "SplitRight"],
        .group ⟨'w', chords 'w', "Write"⟩ [.action ⟨'s', chords 's', "Save"⟩ "SaveAll"]]⟩ :=
    calc (twinGroups.compile chords).outcome
        = .ok ⟨{}, Binding.arrange [
          .group ⟨'w', chords 'w', "Windows"⟩
            (Binding.arrange [.action ⟨'s', chords 's', "Split"⟩ "SplitRight"]),
          .group ⟨'w', chords 'w', "Write"⟩
            (Binding.arrange [.action ⟨'s', chords 's', "Save"⟩ "SaveAll"])]⟩ := rfl
      _ = _ := by simp [Binding.arrange, Mnemonic.sort_cons, Binding.key, Binding.label]
  refine ⟨_, h .ofChar, ?_, ?_⟩
  · exact mem_conflicts_ofTree.2 ⟨by decide, rfl⟩
  · rintro ⟨-, level, hlevel, heq⟩
    obtain ⟨g, hg, -, -, hlevel⟩ := Binding.mem_levelsAt_cons.1 hlevel
    rw [List.mem_singleton.1 hlevel] at heq
    simp only [List.mem_cons, List.not_mem_nil, or_false] at hg
    rcases hg with rfl | rfl <;> exact absurd heq (by decide)

end ConflictIndex

end LeaderKey
