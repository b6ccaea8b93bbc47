import LeaderKey.Proofs.Compile.Siblings

/-!
# Walking the source

`Object.walk?` follows a sequence of mnemonics through the entries of a document, in source order
and without turning back. `resolve_walk` is the theorem that a compiled config resolves a sequence
exactly as this walk of its document does, so that sorting never changes what a sequence reaches.
-/

namespace LeaderKey

namespace Object

/-- The first entry, in source order, whose key begins with a mnemonic and that makes a binding. -/
def select? (entries : Object) (mnemonic : Char) : Option (String × Value) :=
  entries.find? fun e => e.1.toList.head? == some mnemonic && e.2.isBinding

/-- The entry that a sequence of mnemonics leads to. A walk goes on below an entry only if it has no
action. -/
def walk? (entries : Object) : List Char → Option (String × Value)
  | [] => none
  | [mnemonic] => select? entries mnemonic
  | mnemonic :: rest =>
    (select? entries mnemonic).bind fun e =>
      if e.2.hasAction then none else walk? e.2.submenu rest

/-- A longer walk goes on in the submenu of the first entry selected. -/
theorem walk?_cons (entries : Object) (mnemonic : Char) {rest : List Char} (h : rest ≠ []) :
    walk? entries (mnemonic :: rest) = (select? entries mnemonic).bind fun e =>
      if e.2.hasAction then none else walk? e.2.submenu rest := by
  cases rest with
  | nil => contradiction
  | cons next rest => rfl

end Object

/-- What stands under a field of an entry, as text. -/
def Value.fieldText? (body : Value) (field : String) : Option String :=
  body.object?.bind fun fields => (fields.get? field).bind Value.text?

namespace Binding

/-- A binding answers a mnemonic with an entry: it is selected by the mnemonic, has its chord, the
description and the action of the entry, and is a group if the entry has no action. -/
structure Answers (chords : ChordSource) (mnemonic : Char) (e : String × Value)
    (b : Binding) : Prop where
  key : b.key = mnemonic
  chord : b.label.chord = chords mnemonic
  description : e.2.fieldText? descriptionField = some b.label.description
  actionId : b.actionId? = e.2.fieldText? actionField
  isGroup : b.isGroup = !e.2.hasAction

/-! ## One step -/

variable {chords : ChordSource}

/-- The mnemonic of a binding is the first character of the key of its entry. -/
theorem Node.head?_key {e : String × Value} {b : Binding} (h : Node chords e b) :
    e.1.toList.head? = some b.key := by
  cases h with
  | action hlabel _ => exact hlabel.key
  | group hlabel _ _ _ => exact hlabel.key

/-- A binding answers its own mnemonic with the entry that stands for it. -/
theorem Node.answers {e : String × Value} {b : Binding} (h : Node chords e b) :
    Answers chords b.key e b := by
  cases h with
  | @action key fields label actionId hlabel haction =>
    have hholds : (Value.object fields).hasAction = true := Object.holds_of_text haction
    refine ⟨rfl, hlabel.chord, hlabel.description, haction.symm, ?_⟩
    rw [hholds]
    rfl
  | @group key fields entries label children hlabel haction hentries hchildren =>
    have hnone : (fields.get? actionField).bind Value.text? = none := by
      by_contra hsome
      obtain ⟨text, htext⟩ := Option.ne_none_iff_exists'.1 hsome
      rw [Object.holds_of_text htext] at haction
      cases haction
    have hholds : (Value.object fields).hasAction = false := haction
    refine ⟨rfl, hlabel.chord, hlabel.description, hnone.symm, ?_⟩
    rw [hholds]
    rfl

/-- Lists that agree item by item agree on the first item that passes a test. -/
theorem rel_find? {α β : Type} {R : α → β → Prop} {p : α → Bool} {q : β → Bool}
    {as : List α} {bs : List β} (h : List.Forall₂ R as bs) (hpq : ∀ a b, R a b → p a = q b) :
    Option.Rel (fun a b => R a b ∧ q b = true) (as.find? p) (bs.find? q) := by
  induction h with
  | nil => exact .none
  | @cons a b as bs hab _ ih =>
    rw [List.find?_cons, List.find?_cons, hpq a b hab]
    cases hq : q b with
    | true => exact .some ⟨hab, hq⟩
    | false => exact ih

/-- Results that agree in one way agree in every weaker way. -/
theorem rel_imp {α β : Type} {R S : α → β → Prop} {x : Option α} {y : Option β}
    (h : Option.Rel R x y) (hRS : ∀ a b, R a b → S a b) : Option.Rel S x y := by
  cases h with
  | none => exact .none
  | @some a b hab => exact .some (hRS a b hab)

/-- Results that agree go on to results that agree. -/
theorem rel_bind {α β γ δ : Type} {R : α → β → Prop} {S : γ → δ → Prop} {x : Option α}
    {y : Option β} {f : α → Option γ} {g : β → Option δ} (h : Option.Rel R x y)
    (hfg : ∀ a b, R a b → Option.Rel S (f a) (g b)) :
    Option.Rel S (x.bind f) (y.bind g) := by
  cases h with
  | none => exact .none
  | @some a b hab => exact hfg a b hab

/-- Selecting among siblings is selecting among the entries that they stand for. -/
theorem Siblings.select? {entries : Object} {siblings : List Binding}
    (h : Siblings chords entries siblings) (mnemonic : Char) :
    Option.Rel (fun e b => Node chords e b ∧ b.key = mnemonic)
      (entries.select? mnemonic) (Binding.select? siblings mnemonic) := by
  cases h with
  | @intro _ made _ hmade harranged =>
    have hentries : entries.select? mnemonic =
        (entries.filter fun e => e.2.isBinding).find? fun e =>
          e.1.toList.head? == some mnemonic := by
      rw [List.find?_filter, Object.select?]
      simp only [Bool.decide_and, Bool.decide_eq_true, Bool.and_comm]
    -- The sort is stable, so the first sibling with the mnemonic is the first that was made.
    have hsiblings : Binding.select? siblings mnemonic =
        made.find? fun b => b.key == mnemonic := by
      rw [Binding.select?, ← List.head?_filter, harranged.stable, List.head?_filter]
    rw [hentries, hsiblings]
    refine rel_imp (rel_find? hmade fun e b hnode => ?_) fun e b hfound => ?_
    · rw [hnode.head?_key, Option.some_beq_some]
    · exact ⟨hfound.1, beq_iff_eq.1 hfound.2⟩

/-! ## A whole walk -/

/-- Nothing is selected among no entries. -/
theorem walk?_nil (keys : List Char) : Binding.walk? [] keys = none := by
  cases keys with
  | nil => rfl
  | cons key rest =>
    cases rest with
    | nil => rfl
    | cons next rest => rfl

/-- A longer walk among siblings goes on in the children of the first binding selected. -/
theorem walk?_cons (siblings : List Binding) (key : Char) {rest : List Char} (h : rest ≠ []) :
    Binding.walk? siblings (key :: rest) =
      (Binding.select? siblings key).bind fun b => Binding.walk? b.children rest := by
  cases rest with
  | nil => contradiction
  | cons next rest => rfl

/-- Walking siblings is walking the entries that they stand for. -/
theorem Siblings.walk? {entries : Object} {siblings : List Binding}
    (h : Siblings chords entries siblings) (before : List Char) (mnemonic : Char) :
    Option.Rel (fun e b => Node chords e b ∧ b.key = mnemonic)
      (entries.walk? (before ++ [mnemonic])) (Binding.walk? siblings (before ++ [mnemonic])) := by
  -- The induction is on the mnemonics before the last one, which is answered by selection alone.
  induction before generalizing entries siblings with
  | nil => exact h.select? mnemonic
  | cons first rest ih =>
    have hrest : rest ++ [mnemonic] ≠ [] := by simp
    rw [List.cons_append, Object.walk?_cons _ _ hrest, walk?_cons _ _ hrest]
    refine rel_bind (h.select? first) fun e b hselect => ?_
    obtain ⟨hnode, _⟩ := hselect
    cases hnode with
    | @action key fields label actionId hlabel haction =>
      -- Neither walk goes on below an action.
      have hholds : (Value.object fields).hasAction = true := Object.holds_of_text haction
      rw [if_pos hholds, children, walk?_nil]
      exact .none
    | @group key fields inner label children hlabel haction hentries hchildren =>
      have hholds : (Value.object fields).hasAction = false := haction
      rw [if_neg (by simp [hholds]), Value.submenu_of_bindings haction hentries]
      exact ih hchildren

end Binding

/-- A compiled config resolves a sequence of mnemonics exactly as the walk of its document does: both
lead nowhere, or the binding answers the last mnemonic with the entry at which the walk ends. -/
theorem resolve_walk {d : Document} {chords : ChordSource} {config : Config}
    (h : (d.compile chords).outcome = .ok config) (before : List Char) (mnemonic : Char) :
    Option.Rel (Binding.Answers chords mnemonic) (d.entries.walk? (before ++ [mnemonic]))
      (config.resolve (before ++ [mnemonic])) := by
  refine Binding.rel_imp ((Document.siblings_of_compile h).walk? before mnemonic) fun e b hend => ?_
  obtain ⟨hnode, hkey⟩ := hend
  rw [← hkey]
  exact hnode.answers

/-- A document in which three entries begin with one character; the first is left out. -/
def sharedMnemonic : Document :=
  ⟨[("bindings", .object [
    ("w0", .object [("description", .string "Nothing")]),
    ("w1", .object [("description", .string "Windows"), ("bindings", .object [
      ("s", .object [("description", .string "Split"), ("actionId", .string "SplitRight")])])]),
    ("w2", .object [("description", .string "Write"), ("actionId", .string "SaveAll")])])]⟩

/-- Its walk goes through the second one, and the config resolves to where it ends. -/
theorem resolve_walk_sharedMnemonic :
    Option.Rel (Binding.Answers .ofChar 's')
      (some ("s", .object [("description", .string "Split"), ("actionId", .string "SplitRight")]))
      (Config.resolve ⟨{}, [.group ⟨'w', .ofChar 'w', "Windows"⟩
        [.action ⟨'s', .ofChar 's', "Split"⟩ "SplitRight"],
        .action ⟨'w', .ofChar 'w', "Write"⟩ "SaveAll"]⟩ ['w', 's']) := by
  have h (chords : ChordSource) : (sharedMnemonic.compile chords).outcome =
      .ok ⟨{}, [.group ⟨'w', chords 'w', "Windows"⟩
        [.action ⟨'s', chords 's', "Split"⟩ "SplitRight"],
        .action ⟨'w', chords 'w', "Write"⟩ "SaveAll"]⟩ :=
    calc (sharedMnemonic.compile chords).outcome
        = .ok ⟨{}, Binding.arrange [
          .group ⟨'w', chords 'w', "Windows"⟩
            (Binding.arrange [.action ⟨'s', chords 's', "Split"⟩ "SplitRight"]),
          .action ⟨'w', chords 'w', "Write"⟩ "SaveAll"]⟩ := rfl
      _ = _ := by simp [Binding.arrange, Mnemonic.sort_cons, Binding.key, Binding.label]
  have hwalk := resolve_walk (h .ofChar) ['w'] 's'
  have hend : sharedMnemonic.entries.walk? ['w', 's'] = some ("s",
      .object [("description", .string "Split"), ("actionId", .string "SplitRight")]) := by
    decide
  rw [List.singleton_append, hend] at hwalk
  exact hwalk

end LeaderKey
