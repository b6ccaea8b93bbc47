import LeaderKey.CommandLine.Run
import LeaderKey.Proofs.Binding.Position
import LeaderKey.Proofs.Conflict.Levels
import LeaderKey.Proofs.Grammar.Keyed
import Mathlib.Data.Set.Function

/-!
# Conflicts and reach

A tree has no conflicts if no sibling list repeats a mnemonic (`ConflictIndex.conflicts_eq_nil_iff`),
and then every walk with the mnemonics of a position leads back to it
(`Binding.located_iff_distinct`). So the conflicts decide what can be reached, which is the theorem
`ConflictIndex.conflicts_decide_reach`: walks and bindings correspond one to one in a tree without
conflicts, and `check` is content with an rc file exactly if it has no binding out of reach.
-/

namespace LeaderKey

namespace Binding

/-- No sibling list of the tree repeats a mnemonic. -/
def Distinct (siblings : List Binding) : Prop :=
  ∀ keys, ∀ level ∈ levelsAt siblings keys, (level.map key).Nodup

/-! ## Distinct mnemonics -/

/-- No two siblings share a mnemonic if none has an earlier sibling with its own. -/
theorem nodup_keys_iff {siblings : List Binding} : (siblings.map key).Nodup ↔
    ∀ (i : Nat) (b : Binding), siblings[i]? = some b →
      ¬ ∃ j < i, ∃ a, siblings[j]? = some a ∧ a.key = b.key := by
  rw [List.nodup_iff_getElem?_ne_getElem?]
  constructor
  · rintro h i b hb ⟨j, hj, a, ha, hkey⟩
    have hi : i < (siblings.map key).length := by
      rw [List.length_map]
      exact (List.getElem?_eq_some_iff.1 hb).1
    refine h j i hj hi ?_
    rw [List.getElem?_map, List.getElem?_map, ha, hb, Option.map_some, Option.map_some, hkey]
  · intro h j i hj hi heq
    rw [List.length_map] at hi
    have hb : siblings[i]? = some siblings[i] := List.getElem?_eq_getElem hi
    have ha : siblings[j]? = some siblings[j] := List.getElem?_eq_getElem (hj.trans hi)
    rw [List.getElem?_map, List.getElem?_map, ha, hb, Option.map_some, Option.map_some,
      Option.some.injEq] at heq
    exact h i siblings[i] hb ⟨j, hj, siblings[j], ha, heq⟩

/-- Among no siblings nothing is repeated. -/
theorem distinct_nil : Distinct [] := by
  intro keys level hlevel
  match keys with
  | [] =>
    rw [List.mem_singleton.1 hlevel]
    exact List.nodup_nil
  | k :: keys => cases hlevel

/-- Below a binding of a tree of distinct mnemonics, the mnemonics are distinct. -/
theorem Distinct.children {siblings : List Binding} (h : Distinct siblings) {b : Binding}
    (hb : b ∈ siblings) : Distinct b.children := by
  match b with
  | .action label actionId => exact distinct_nil
  | .group label children => exact (forall_levels_iff.1 h).2 _ hb rfl

/-- Where the mnemonics are distinct, a walk with the mnemonics of a position leads back to it. -/
theorem Distinct.located {siblings : List Binding} (h : Distinct siblings) {position : List Nat}
    (hnode : position = [] ∨ (node? siblings position).isSome) :
    locate? siblings (mnemonics siblings position) = some position := by
  induction position generalizing siblings with
  | nil => rfl
  | cons i below ih =>
    obtain ⟨b, hb, hbelow⟩ := isSome_node?_cons.1 (hnode.resolve_left (List.cons_ne_nil i below))
    have hroot : (siblings.map key).Nodup := (forall_levels_iff.1 h).1
    refine (locate?_mnemonics_cons hb).2 ⟨nodup_keys_iff.1 hroot i b hb, ?_⟩
    exact ih (h.children (List.mem_of_getElem? hb)) hbelow

/-- The mnemonics are distinct exactly if, for every binding of the tree, a walk with its mnemonics
leads back to it. -/
theorem located_iff_distinct {siblings : List Binding} :
    (∀ position, (node? siblings position).isSome →
      locate? siblings (mnemonics siblings position) = some position) ↔ Distinct siblings := by
  constructor
  · intro h keys
    induction keys generalizing siblings with
    | nil =>
      intro level hlevel
      rw [List.mem_singleton.1 hlevel, nodup_keys_iff]
      intro i b hb
      have hnode : (node? siblings [i]).isSome := isSome_node?_cons.2 ⟨b, hb, Or.inl rfl⟩
      exact ((locate?_mnemonics_cons hb).1 (h [i] hnode)).1
    | cons k keys ih =>
      intro level hlevel
      obtain ⟨g, hg, -, -, hlevel⟩ := mem_levelsAt_cons.1 hlevel
      obtain ⟨i, hi⟩ := List.getElem?_of_mem hg
      refine ih (fun below hbelow => ?_) level hlevel
      have hnode : (node? siblings (i :: below)).isSome :=
        isSome_node?_cons.2 ⟨g, hi, Or.inr hbelow⟩
      exact ((locate?_mnemonics_cons hi).1 (h (i :: below) hnode)).2
  · exact fun h position hnode => h.located (Or.inr hnode)

/-- The number of siblings with a mnemonic. -/
theorem length_described (k : Char) (siblings : List Binding) :
    (described k siblings).length = (siblings.map key).count k := by
  rw [described, List.length_map, List.count_eq_countP, List.countP_map,
    List.countP_eq_length_filter]
  rfl

/-- The mnemonics are distinct exactly if no name of sibling lists has two bindings with one
mnemonic. -/
theorem distinct_iff {siblings : List Binding} :
    Distinct siblings ↔ ∀ keys k, (describedAt siblings keys k).length ≤ 1 := by
  constructor
  · intro h keys k
    -- Groups with mnemonics of their own leave at most one sibling list of that name.
    have hseparate : SeparateGroups siblings := fun keys level hlevel =>
      (h keys level hlevel).sublist (List.filter_sublist.map key)
    have hone := hseparate.length_levelsAt_le keys
    have hlevels := h keys
    unfold describedAt
    generalize levelsAt siblings keys = levels at hone hlevels
    match levels, hone with
    | [], _ => exact Nat.zero_le 1
    | [level], _ =>
      rw [List.flatMap_singleton, length_described]
      exact List.nodup_iff_count_le_one.1 (hlevels level List.mem_cons_self) k
  · intro h keys level hlevel
    refine List.nodup_iff_count_le_one.2 fun k => ?_
    calc (level.map key).count k
        = (described k level).length := (length_described k level).symm
      _ ≤ (describedAt siblings keys k).length := by
        rw [describedAt, List.flatMap_def]
        exact (List.sublist_flatten_of_mem (List.mem_map_of_mem hlevel)).length_le
      _ ≤ 1 := h keys k

end Binding

/-- A reload publishes what the text of the rc file compiles to. -/
theorem Reload.result_of_compile {files : FileTree} {store : Store} {path text : String}
    {chords : ChordSource} {d : Document} {config : Config}
    (hread : (RcFile.read files path).result = .ok text) (hparse : Document.parse text = .ok d)
    (hcompile : (d.compile chords).outcome = .ok config) :
    (run files store path chords).result = .ok (store.publish config path).current := by
  have htext : (compileText text chords).outcome = .ok config := by
    rw [compileText, hparse]
    exact hcompile
  unfold run load
  dsimp only
  rw [hread]
  dsimp only
  rw [htext]

namespace ConflictIndex

open Binding CommandLine

/-- A tree has no conflicts exactly if no sibling list in it repeats a mnemonic. -/
theorem conflicts_eq_nil_iff {siblings : List Binding} :
    (ofTree siblings).conflicts = [] ↔ Distinct siblings := by
  rw [List.eq_nil_iff_forall_not_mem, distinct_iff]
  constructor
  · intro h keys k
    by_contra hlength
    refine h ⟨⟨String.ofList keys, k⟩, describedAt siblings keys k⟩ (mem_conflicts_ofTree.2 ?_)
    rw [String.toList_ofList]
    exact ⟨Nat.lt_of_not_le hlength, rfl⟩
  · intro h c hc
    obtain ⟨hlength, hdescriptions⟩ := mem_conflicts_ofTree.1 hc
    rw [hdescriptions] at hlength
    exact absurd (h c.slot.parent.toList c.slot.key) (Nat.not_le_of_lt hlength)

/-- Where nothing is repeated, walks that give a binding and bindings correspond one to one. -/
theorem bijOn_locate? {siblings : List Binding} (h : Distinct siblings) :
    Set.BijOn (locate? siblings) {keys | (walk? siblings keys).isSome}
      (some '' {position | (node? siblings position).isSome}) := by
  refine ⟨?_, ?_, ?_⟩
  · -- A walk that gives a binding leads to its position.
    intro keys hkeys
    rw [Set.mem_ofPred_eq, walk?_eq] at hkeys
    match hlocate : locate? siblings keys with
    | none =>
      rw [hlocate] at hkeys
      cases hkeys
    | some position =>
      rw [hlocate] at hkeys
      exact ⟨position, hkeys, rfl⟩
  · -- The position gives back the walk.
    intro keys hkeys keys' _ heq
    rw [Set.mem_ofPred_eq, walk?_eq] at hkeys
    match hlocate : locate? siblings keys with
    | none =>
      rw [hlocate] at hkeys
      cases hkeys
    | some position =>
      have hlocate' : locate? siblings keys' = some position := heq.symm.trans hlocate
      rw [← mnemonics_of_locate? hlocate, mnemonics_of_locate? hlocate']
  · rintro _ ⟨position, hnode, rfl⟩
    have hlocate := h.located (Or.inr hnode)
    refine ⟨mnemonics siblings position, ?_, hlocate⟩
    rw [Set.mem_ofPred_eq, walk?_eq, hlocate]
    exact hnode

/-! ## The check of an rc file -/

/-- The last line of `check` about a config without conflicts. -/
def contentLine : String := "✓ No duplicate mnemonics!\n"

/-- `check` ends with this line if there are no conflicts, and only then. -/
theorem contentLine_suffix_iff (out : String) (config : Config) :
    contentLine.toList <:+ (out ++ checkText config).toList ↔
      (ofTree config.bindings).conflicts = [] := by
  unfold checkText
  dsimp only
  split
  · rename_i hnone
    refine iff_of_true ?_ hnone
    rw [String.toList_append, String.toList_append]
    exact (List.suffix_append _ _).trans (List.suffix_append _ _)
  · rename_i hsome
    refine iff_of_false (fun hsuffix => ?_) hsome
    -- Of two ends of one text, the shorter is the end of the longer.
    have hwarning : contentLine.toList <:+
        "⚠ Only the first binding of each key is reachable!\n".toList := by
      refine List.suffix_of_suffix_length_le hsuffix ?_ (by decide)
      rw [String.toList_append, String.toList_append]
      exact (List.suffix_append _ _).trans (List.suffix_append _ _)
    exact absurd hwarning (by decide)

/-- What `check` leaves behind when the rc file is loaded. -/
theorem checkReport_of_loaded {env : Environment} {path : String} {snapshot : Snapshot}
    (h : (Reload.run env.files {} path KeyChord.ofChar).result = .ok snapshot) :
    (checkReport env path).code =
        (if (ofTree snapshot.config.bindings).conflicts.isEmpty then 0 else 1) ∧
      (checkReport env path).out =
        "→ Compiling config: " ++ path ++ "\n" ++ checkText snapshot.config := by
  unfold checkReport withLoaded
  dsimp only
  rw [h]
  exact ⟨rfl, rfl⟩

/-- The conflicts of a tree decide what can be reached in it. A walk gives the binding at the
position to which it leads. For a binding of the tree, the walk with its own mnemonics leads
elsewhere exactly if the binding or a group above it has an earlier sibling with its mnemonic; there
are no conflicts exactly if this is so for no binding; and then walks that give a binding and
bindings correspond one to one. So `check`, on an rc file that is loaded, ends with code 0 and with
the word that there are no duplicates exactly if some walk leads to every binding. -/
theorem conflicts_decide_reach :
    (∀ config : Config,
      (∀ keys, config.resolve keys =
        (locate? config.bindings keys).bind (node? config.bindings)) ∧
      (∀ position, (node? config.bindings position).isSome →
        (locate? config.bindings (mnemonics config.bindings position) ≠ some position ↔
          Shadowed config.bindings position)) ∧
      ((ofTree config.bindings).conflicts = [] ↔
        ∀ position, (node? config.bindings position).isSome →
          locate? config.bindings (mnemonics config.bindings position) = some position) ∧
      ((ofTree config.bindings).conflicts = [] →
        Set.BijOn (locate? config.bindings) {keys | (config.resolve keys).isSome}
          (some '' {position | (node? config.bindings position).isSome}))) ∧
    (∀ (env : Environment) (path : String) (snapshot : Snapshot),
      (Reload.run env.files {} path KeyChord.ofChar).result = .ok snapshot →
      ((checkReport env path).code = 0 ↔
        ∀ position, (node? snapshot.config.bindings position).isSome →
          ∃ keys, locate? snapshot.config.bindings keys = some position) ∧
      (contentLine.toList <:+ (checkReport env path).out.toList ↔
        (checkReport env path).code = 0)) := by
  constructor
  · intro config
    refine ⟨walk?_eq config.bindings, fun position hnode => ?_, ?_, fun hnone => ?_⟩
    · rw [ne_eq, located_iff_not_shadowed (Or.inr hnode), not_not]
    · exact conflicts_eq_nil_iff.trans located_iff_distinct.symm
    · exact bijOn_locate? (conflicts_eq_nil_iff.1 hnone)
  · intro env path snapshot hloaded
    obtain ⟨hcode, hout⟩ := checkReport_of_loaded hloaded
    have hnone : (checkReport env path).code = 0 ↔
        (ofTree snapshot.config.bindings).conflicts = [] := by
      rw [hcode, ← List.isEmpty_iff]
      cases (ofTree snapshot.config.bindings).conflicts.isEmpty <;> simp
    rw [hout, contentLine_suffix_iff, hnone, conflicts_eq_nil_iff, ← located_iff_distinct]
    refine ⟨forall₂_congr fun position hnode => ?_, Iff.rfl⟩
    constructor
    · exact fun hlocate => ⟨mnemonics snapshot.config.bindings position, hlocate⟩
    · rintro ⟨keys, hlocate⟩
      rw [mnemonics_of_locate? hlocate, hlocate]

/-- An rc file in which two actions share a mnemonic. -/
def twinActions : String :=
  "bindings.w1 \x7bdescription: Tile, actionId: T\x7d
bindings.w2 \x7bdescription: Save, actionId: S\x7d"

/-- The document of this rc file. -/
def twinDocument : Document :=
  ⟨[("bindings", .object [
    ("w1", .object [("description", .string "Tile"), ("actionId", .string "T")]),
    ("w2", .object [("description", .string "Save"), ("actionId", .string "S")])])]⟩

/-- The bindings of this rc file. -/
def twinBindings (chords : ChordSource) : List Binding :=
  [.action ⟨'w', chords 'w', "Tile"⟩ "T", .action ⟨'w', chords 'w', "Save"⟩ "S"]

/-- The rc file alone in the working directory. -/
def twinFiles : FileTree := ⟨[(["rc"], .file twinActions.toUTF8)], []⟩

/-- The rc file is loaded, but `check` does not end with code 0: no walk leads to the second one. -/
theorem conflicts_decide_reach_twinActions :
    (Reload.run twinFiles {} "rc" KeyChord.ofChar).result =
        .ok ⟨1, ⟨{}, twinBindings KeyChord.ofChar⟩, some "rc", true⟩ ∧
      (checkReport ⟨twinFiles, none, none⟩ "rc").code ≠ 0 := by
  have hread : (RcFile.read twinFiles "rc").result = .ok twinActions := by decide +kernel
  have hparse : Document.parse twinActions = .ok twinDocument := by decide +kernel
  have hcompile (chords : ChordSource) :
      (twinDocument.compile chords).outcome = .ok ⟨{}, twinBindings chords⟩ :=
    calc (twinDocument.compile chords).outcome
        = .ok ⟨{}, arrange [.action ⟨'w', chords 'w', "Tile"⟩ "T",
          .action ⟨'w', chords 'w', "Save"⟩ "S"]⟩ := rfl
      _ = _ := by simp [arrange, Mnemonic.sort_cons, key, label, twinBindings]
  have hloaded : (Reload.run twinFiles {} "rc" KeyChord.ofChar).result =
      .ok ⟨1, ⟨{}, twinBindings KeyChord.ofChar⟩, some "rc", true⟩ :=
    Reload.result_of_compile hread hparse (hcompile KeyChord.ofChar)
  have hnode : (node? (twinBindings KeyChord.ofChar) [1]).isSome := rfl
  refine ⟨hloaded, fun hcode => ?_⟩
  have hreached := (conflicts_decide_reach.2 ⟨twinFiles, none, none⟩ "rc" _ hloaded).1.1 hcode
  obtain ⟨keys, hlocate⟩ := hreached [1] hnode
  -- The mnemonics of the second one lead to the first.
  have hkeys : ['w'] = keys := mnemonics_of_locate? hlocate
  have hfirst : locate? (twinBindings KeyChord.ofChar) ['w'] = some [0] := rfl
  rw [← hkeys, hfirst] at hlocate
  cases hlocate

end ConflictIndex

end LeaderKey
