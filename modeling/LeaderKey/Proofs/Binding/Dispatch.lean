import LeaderKey.Proofs.Chord.Twins
import LeaderKey.Proofs.Compile.Walk
import LeaderKey.Proofs.Conflict.Reach

/-!
# Dispatch on chords

A host that receives key presses can walk a config by chords (`Config.dispatch`) and does not need
the characters. Chords confuse twins and no other characters, so siblings have equal chords exactly if
their mnemonics are the same or twins. `chords_discriminate` says that dispatch arrives where
`Config.resolve` does unless a twin of a character that is pressed stands in front, and that without
conflicts siblings with equal chords are twins. `twins_share_chord` is a config of two such siblings.
-/

namespace LeaderKey

namespace Binding

/-- The first of some siblings that a key press selects. -/
def press? (siblings : List Binding) (chord : KeyChord) : Option Binding :=
  siblings.find? fun b => b.label.chord == chord

/-- The binding that a sequence of key presses leads to from some siblings. -/
def dispatch? (siblings : List Binding) : List KeyChord → Option Binding
  | [] => none
  | [chord] => press? siblings chord
  | chord :: chords => (press? siblings chord).bind fun b => dispatch? b.children chords

/-- Every twin of a character stands behind a sibling with the character itself. -/
def TwinsYield (siblings : List Binding) (key : Char) : Prop :=
  ∀ above b below, siblings = above ++ b :: below → KeyChord.Twins b.key key →
    ∃ a ∈ above, a.key = key

/-- The siblings among which a walk goes on behind some mnemonics, none if these lead nowhere. -/
def levelAfter (siblings : List Binding) : List Char → List Binding
  | [] => siblings
  | key :: keys => ((walk? siblings (key :: keys)).map children).getD []

/-- Every binding of a tree has the chord that types its mnemonic. -/
def Typed (siblings : List Binding) : Prop :=
  ∀ keys, ∀ level ∈ levelsAt siblings keys, ∀ b ∈ level, b.label.chord = .ofChar b.key

variable {siblings : List Binding} {key : Char}

/-! ## What compiles is typed -/

/-- Of two lists that agree item by item, each item of the second has one in the first. -/
theorem exists_of_forall₂ {α β : Type} {R : α → β → Prop} {as : List α} {bs : List β}
    (h : List.Forall₂ R as bs) {b : β} (hb : b ∈ bs) : ∃ a, R a b := by
  induction h with
  | nil => cases hb
  | @cons a c as bs hac _ ih =>
    rcases List.mem_cons.1 hb with rfl | hb
    · exact ⟨a, hac⟩
    · exact ih hb

/-- What one of the siblings that entries stand for is made of: the chord of its mnemonic, and for a
group entries of its own. -/
theorem Siblings.of_mem {chords : ChordSource} {entries : Object}
    (h : Siblings chords entries siblings) {b : Binding} (hb : b ∈ siblings) :
    b.label.chord = chords b.key ∧
      (b.isGroup = true → ∃ inner, Siblings chords inner b.children) := by
  cases h with
  | @intro _ made _ hmade harranged =>
    obtain ⟨e, hnode⟩ := exists_of_forall₂ hmade (harranged.perm.mem_iff.1 hb)
    cases hnode with
    | action hlabel _ => exact ⟨hlabel.chord, fun hgroup => by cases hgroup⟩
    | group hlabel _ _ hchildren => exact ⟨hlabel.chord, fun _ => ⟨_, hchildren⟩⟩

/-- Every level below siblings that entries stand for is one that entries stand for. -/
theorem Siblings.level {chords : ChordSource} {entries : Object}
    (h : Siblings chords entries siblings) (keys : List Char) :
    ∀ level ∈ levelsAt siblings keys, ∃ inner, Siblings chords inner level := by
  induction keys generalizing entries siblings with
  | nil =>
    intro level hlevel
    rw [List.mem_singleton.1 hlevel]
    exact ⟨entries, h⟩
  | cons k keys ih =>
    intro level hlevel
    obtain ⟨g, hg, hgroup, -, hlevel⟩ := mem_levelsAt_cons.1 hlevel
    obtain ⟨inner, hinner⟩ := (h.of_mem hg).2 hgroup
    exact ih hinner level hlevel

/-- The siblings that entries stand for have the chords of their mnemonics, at every level. -/
theorem Siblings.typed {entries : Object} (h : Siblings .ofChar entries siblings) :
    Typed siblings := by
  intro keys level hlevel b hb
  obtain ⟨inner, hinner⟩ := h.level keys level hlevel
  exact (hinner.of_mem hb).1

/-- The children of typed siblings are typed. -/
theorem Typed.children (h : Typed siblings) {b : Binding} (hb : b ∈ siblings) :
    Typed b.children := by
  cases b with
  | action label actionId => exact forall_levels_iff.2 ⟨nofun, nofun⟩
  | group label inner => exact (forall_levels_iff.1 h).2 _ hb rfl

/-! ## One press -/

/-- What a character selects has it as mnemonic. -/
theorem key_of_select? {b : Binding} (h : select? siblings key = some b) : b.key = key :=
  beq_iff_eq.1 (List.find?_some (p := fun b : Binding => b.key == key) h)

/-- Siblings have equal chords exactly if their mnemonics are the same or twins. -/
theorem Typed.chord_beq_iff (h : Typed siblings) {keys : List Char} {level : List Binding}
    (hlevel : level ∈ levelsAt siblings keys) {a b : Binding} (ha : a ∈ level) (hb : b ∈ level) :
    (a.label.chord == b.label.chord) = true ↔ a.key = b.key ∨ KeyChord.Twins a.key b.key := by
  rw [h keys level hlevel a ha, h keys level hlevel b hb, KeyChord.ofChar_beq_iff]

/-- A sibling in front that is not a twin of a character makes no difference to the twins of the
character, unless it has the character itself: then they all stand behind it. -/
theorem twinsYield_cons {b : Binding} {rest : List Binding} :
    TwinsYield (b :: rest) key ↔
      ¬ KeyChord.Twins b.key key ∧ (b.key = key ∨ TwinsYield rest key) := by
  constructor
  · intro h
    refine ⟨fun htwins => ?_, or_iff_not_imp_left.2 fun hne above a below heq htwins => ?_⟩
    · obtain ⟨a, ha, -⟩ := h [] b rest rfl htwins
      cases ha
    · obtain ⟨c, hc, hkey⟩ := h (b :: above) a below (by rw [heq, List.cons_append]) htwins
      rcases List.mem_cons.1 hc with rfl | hc
      · exact absurd hkey hne
      · exact ⟨c, hc, hkey⟩
  · rintro ⟨hnot, hrest⟩ above a below heq htwins
    match above with
    | [] =>
      obtain ⟨rfl, -⟩ := List.cons.inj heq
      exact absurd htwins hnot
    | first :: above =>
      rw [List.cons_append] at heq
      obtain ⟨rfl, htail⟩ := List.cons.inj heq
      rcases hrest with hkey | hrest
      · exact ⟨_, List.mem_cons_self, hkey⟩
      · obtain ⟨c, hc, hkey⟩ := hrest above a below htail htwins
        exact ⟨c, List.mem_cons_of_mem _ hc, hkey⟩

/-- Pressing the key of a character selects what the character selects exactly if no twin of the
character stands in front. -/
theorem press?_eq_select?_iff (h : ∀ b ∈ siblings, b.label.chord = .ofChar b.key) :
    press? siblings (.ofChar key) = select? siblings key ↔ TwinsYield siblings key := by
  induction siblings with
  | nil => exact iff_of_true rfl fun above b below heq => absurd heq.symm (by simp)
  | cons b rest ih =>
    have hpressed : (b.label.chord == KeyChord.ofChar key) = true ↔
        b.key = key ∨ KeyChord.Twins b.key key := by
      rw [h b List.mem_cons_self, KeyChord.ofChar_beq_iff]
    rw [twinsYield_cons]
    unfold press? select? at *
    by_cases hkey : b.key = key
    · -- The first sibling has the character: it is selected in both ways.
      rw [List.find?_cons, hpressed.2 (Or.inl hkey), List.find?_cons, beq_iff_eq.2 hkey]
      exact iff_of_true rfl ⟨fun htwins => htwins.ne hkey, Or.inl hkey⟩
    · by_cases htwins : KeyChord.Twins b.key key
      · -- A twin in front is selected by the press, and never by the character.
        rw [List.find?_cons, hpressed.2 (Or.inr htwins)]
        refine iff_of_false (fun heq => ?_) fun hyield => hyield.1 htwins
        exact hkey (key_of_select? heq.symm)
      · have hnot : (b.label.chord == KeyChord.ofChar key) = false := by
          rw [← Bool.not_eq_true, hpressed]
          exact not_or.2 ⟨hkey, htwins⟩
        rw [List.find?_cons, hnot, List.find?_cons, beq_eq_false_iff_ne.2 hkey,
          and_iff_right htwins, or_iff_right hkey]
        exact ih fun a ha => h a (List.mem_cons_of_mem _ ha)

/-! ## A whole walk -/

/-- With one more mnemonic in front, a walk goes on in the children of the binding that it selects. -/
theorem levelAfter_cons (siblings : List Binding) (key : Char) (keys : List Char) :
    levelAfter siblings (key :: keys) =
      ((select? siblings key).map fun b => levelAfter b.children keys).getD [] := by
  cases keys with
  | nil => rfl
  | cons next keys =>
    rw [levelAfter, walk?_cons _ _ (List.cons_ne_nil _ _)]
    cases select? siblings key <;> rfl

/-- Dispatch arrives where the characters lead if at every level that their walk comes to no twin of
the next character stands in front. -/
theorem Typed.dispatch?_eq_walk? (h : Typed siblings) {keys : List Char}
    (hyield : ∀ before key after, keys = before ++ key :: after →
      TwinsYield (levelAfter siblings before) key) :
    dispatch? siblings (keys.map .ofChar) = walk? siblings keys := by
  -- The induction is on the presses; behind the first one, the walk is that of the children.
  induction keys generalizing siblings with
  | nil => rfl
  | cons key rest ih =>
    have hselect : press? siblings (.ofChar key) = select? siblings key :=
      (press?_eq_select?_iff (h [] siblings List.mem_cons_self)).2 (hyield [] key rest rfl)
    match rest with
    | [] => exact hselect
    | next :: rest =>
      have hstep : ∀ b, select? siblings key = some b →
          dispatch? b.children ((next :: rest).map .ofChar) = walk? b.children (next :: rest) := by
        intro b hb
        refine ih (h.children (List.mem_of_find?_eq_some hb)) fun before k after heq => ?_
        have hlevel : levelAfter siblings (key :: before) = levelAfter b.children before := by
          rw [levelAfter_cons, hb, Option.map_some, Option.getD_some]
        rw [← hlevel]
        exact hyield (key :: before) k after (by rw [heq, List.cons_append])
      calc dispatch? siblings ((key :: next :: rest).map .ofChar)
          = (press? siblings (.ofChar key)).bind fun b =>
            dispatch? b.children ((next :: rest).map .ofChar) := rfl
        _ = (select? siblings key).bind fun b => walk? b.children (next :: rest) := by
          rw [hselect]
          exact Option.bind_congr hstep
        _ = walk? siblings (key :: next :: rest) := rfl

end Binding

/-- The binding that a sequence of key presses leads to; the empty one leads to nothing. -/
def Config.dispatch (c : Config) (presses : List KeyChord) : Option Binding :=
  Binding.dispatch? c.bindings presses

open Binding

/-- The bindings of a config text that compiles have the chords of their mnemonics. -/
theorem typed_of_compileText {text : String} {config : Config}
    (h : (compileText text .ofChar).outcome = .ok config) : Typed config.bindings := by
  rw [compileText] at h
  cases hparse : Document.parse text with
  | ok d =>
    rw [hparse] at h
    exact (Document.siblings_of_compile h).typed
  | error e =>
    rw [hparse] at h
    cases h

/-- Chords discriminate the siblings of a compiled config up to twins. Siblings have equal chords
exactly if they have one mnemonic or their mnemonics are twins. Dispatch on the chords of some
characters arrives where the characters resolve to if, at every level on the way there, no twin of the
next character stands in front; and if no duplicates are reported, siblings with equal chords are
twins. -/
theorem chords_discriminate {text : String} {config : Config}
    (h : (compileText text .ofChar).outcome = .ok config) :
    (∀ keys, ∀ level ∈ levelsAt config.bindings keys, ∀ a ∈ level, ∀ b ∈ level,
      (a.label.chord == b.label.chord) = true ↔
        a.key = b.key ∨ KeyChord.Twins a.key b.key) ∧
    (∀ keys, (∀ before key after, keys = before ++ key :: after →
        TwinsYield (levelAfter config.bindings before) key) →
      config.dispatch (keys.map .ofChar) = config.resolve keys) ∧
    ((ConflictIndex.ofTree config.bindings).conflicts = [] →
      ∀ keys, ∀ level ∈ levelsAt config.bindings keys, level.Pairwise fun a b =>
        (a.label.chord == b.label.chord) = true → KeyChord.Twins a.key b.key) := by
  have htyped : Typed config.bindings := typed_of_compileText h
  refine ⟨fun keys level hlevel a ha b hb => htyped.chord_beq_iff hlevel ha hb,
    fun keys hyield => htyped.dispatch?_eq_walk? hyield, fun hnone keys level hlevel => ?_⟩
  have hnodup : (level.map key).Nodup :=
    ConflictIndex.conflicts_eq_nil_iff.1 hnone keys level hlevel
  have hdistinct : level.Pairwise fun a b => a.key ≠ b.key := List.pairwise_map.1 hnodup
  refine hdistinct.imp_of_mem fun ha hb hne hchord => ?_
  exact ((htyped.chord_beq_iff hlevel ha hb).1 hchord).resolve_left hne

/-- A config text with twins: `ǅ` and its lower case `ǆ`. -/
def twinLetters : String :=
  "bindings.ǅ \x7bdescription: Title, actionId: T\x7d
bindings.ǆ \x7bdescription: Lower, actionId: L\x7d"

/-- The document of this text. -/
def twinLettersDocument : Document :=
  ⟨[("bindings", .object [
    ("ǅ", .object [("description", .string "Title"), ("actionId", .string "T")]),
    ("ǆ", .object [("description", .string "Lower"), ("actionId", .string "L")])])]⟩

/-- The bindings of this text; of the twins, the lower case stands in front. -/
def twinLettersBindings (chords : ChordSource) : List Binding :=
  [.action ⟨'ǆ', chords 'ǆ', "Lower"⟩ "L", .action ⟨'ǅ', chords 'ǅ', "Title"⟩ "T"]

/-- What the text compiles to. -/
theorem compileText_twinLetters (chords : ChordSource) :
    (compileText twinLetters chords).outcome = .ok ⟨{}, twinLettersBindings chords⟩ := by
  have hparse : Document.parse twinLetters = .ok twinLettersDocument := by decide +kernel
  have hbefore : Mnemonic.before 'ǅ' 'ǆ' = false := by decide +kernel
  calc (compileText twinLetters chords).outcome
      = (twinLettersDocument.compile chords).outcome := by rw [compileText, hparse]
    _ = .ok ⟨{}, arrange [.action ⟨'ǅ', chords 'ǅ', "Title"⟩ "T",
        .action ⟨'ǆ', chords 'ǆ', "Lower"⟩ "L"]⟩ := rfl
    _ = _ := by simp [arrange, Mnemonic.sort_cons, key, label, twinLettersBindings, hbefore]

/-- A press of the twin that stands in front dispatches to its binding. -/
theorem chords_discriminate_twinLetters :
    (compileText twinLetters .ofChar).outcome = .ok ⟨{}, twinLettersBindings .ofChar⟩ ∧
      Config.dispatch ⟨{}, twinLettersBindings .ofChar⟩ [.ofChar 'ǆ'] =
        some (.action ⟨'ǆ', .ofChar 'ǆ', "Lower"⟩ "L") := by
  have h := compileText_twinLetters .ofChar
  refine ⟨h, ((chords_discriminate h).2.1 ['ǆ'] ?_).trans rfl⟩
  intro before key after heq
  obtain ⟨rfl, rfl, -⟩ : before = [] ∧ key = 'ǆ' ∧ after = [] := by
    cases before with
    | nil =>
      cases heq
      exact ⟨rfl, rfl, rfl⟩
    | cons c before =>
      have hnil := (List.cons.inj heq).2
      simp at hnil
  -- The one level on the way is that of the root, where the other twin stands behind.
  exact twinsYield_cons.2 ⟨fun htwins => htwins.ne rfl, Or.inl rfl⟩

/-- The twins have equal chords though their mnemonics differ: no duplicates are reported, and a press
of one dispatches to the binding of the other. -/
theorem twins_share_chord :
    ∃ config, (compileText twinLetters .ofChar).outcome = .ok config ∧
      (ConflictIndex.ofTree config.bindings).conflicts = [] ∧
      (∃ a ∈ config.bindings, ∃ b ∈ config.bindings,
        (a.label.chord == b.label.chord) = true ∧ a.key ≠ b.key) ∧
      (config.dispatch [.ofChar 'ǅ']).bind actionId? = some "L" ∧
      (config.resolve ['ǅ']).bind actionId? = some "T" := by
  refine ⟨_, compileText_twinLetters .ofChar, by decide +kernel, ?_, by decide +kernel,
    by decide +kernel⟩
  refine ⟨.action ⟨'ǆ', .ofChar 'ǆ', "Lower"⟩ "L", ?_,
    .action ⟨'ǅ', .ofChar 'ǅ', "Title"⟩ "T", ?_, by decide +kernel, by decide⟩
  · simp [twinLettersBindings]
  · simp [twinLettersBindings]

end LeaderKey
