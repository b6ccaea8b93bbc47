import LeaderKey.Event
import LeaderKey.Proofs.Compile.Entries
import LeaderKey.Proofs.Mnemonic.Sort

/-!
# The law of siblings

`Binding.Siblings` says which bindings belong to an object of entries, to any depth and without a word
on how they are made: the entries with an action or bindings give one binding each, `Binding.Node`
says which one, and these bindings stand in the order of their mnemonics. `build_siblings` is the
theorem that what compiles obeys the law, and logs the entries that are left out.
-/

namespace LeaderKey

/-- What a compilation records: the entries that it leaves out. -/
def Compilation.events {α : Type} (x : Compilation α) : List Event := x.dropped.map .dropped

namespace Binding

/-! ## The law -/

mutual

/-- The binding that an entry stands for. -/
inductive Node (chords : ChordSource) : String × Value → Binding → Prop
  /-- An entry with an action stands for that action, whatever its bindings. -/
  | action {key : String} {fields : Object} {label : Label} {actionId : String}
      (hlabel : label.Fits chords key fields)
      (haction : (fields.get? actionField).bind Value.text? = some actionId) :
      Node chords (key, .object fields) (.action label actionId)
  /-- An entry without an action stands for the group of its bindings, which may be empty. -/
  | group {key : String} {fields entries : Object} {label : Label} {children : List Binding}
      (hlabel : label.Fits chords key fields) (haction : fields.holds actionField = false)
      (hentries : fields.get? bindingsField = some (.object entries))
      (hchildren : Siblings chords entries children) :
      Node chords (key, .object fields) (.group label children)

/-- The bindings that an object of entries stands for: one for each entry that makes a binding, in
the order of their mnemonics. -/
inductive Siblings (chords : ChordSource) : Object → List Binding → Prop
  | intro {entries : Object} {made siblings : List Binding}
      (hmade : List.Forall₂ (Node chords) (entries.filter fun e => e.2.isBinding) made)
      (harranged : Mnemonic.Arranged key made siblings) :
      Siblings chords entries siblings

end

/-- What is built from a list of entries splits into what its first entry and the others give. -/
theorem buildEntries_cons_eq_ok {chords : ChordSource} {path key : String} {body : Value}
    {rest : Object} {dropped : List String} {made : List Binding}
    (h : buildEntries chords path ((key, body) :: rest) = ⟨dropped, .ok made⟩) :
    ∃ b bs first second, Built chords key (subpath path key) body b first ∧
      buildEntries chords path rest = ⟨second, .ok bs⟩ ∧
      dropped = first ++ second ∧ made = b.toList ++ bs := by
  rw [buildEntries, Compilation.bind_eq_ok] at h
  obtain ⟨b, first, _, hb, h, rfl⟩ := h
  rw [Compilation.bind_eq_ok] at h
  obtain ⟨bs, second, _, hbs, h, rfl⟩ := h
  obtain ⟨rfl, rfl⟩ := Compilation.pure_eq_ok.1 h
  rw [List.append_nil]
  exact ⟨b, bs, first, second, built_of_buildEntry hb, hbs, rfl, rfl⟩

/-- Entries that compile give their bindings in source order, and drop what makes none. -/
theorem buildEntries_spec {chords : ChordSource} {level : List String} (hlevel : level ≠ [])
    {entries : Object} {dropped : List String} {made : List Binding}
    (h : buildEntries chords (dotted level) entries = ⟨dropped, .ok made⟩) :
    List.Forall₂ (Node chords) (entries.filter fun e => e.2.isBinding) made ∧
      dropped = ((Entry.examined level entries).filter Entry.isDropped).map Entry.path := by
  -- The induction follows the recursion over submenus; both parts are needed for a group.
  induction level, entries using Entry.examined.induct generalizing dropped made with
  | case1 level =>
    rw [buildEntries, Compilation.pure_eq_ok] at h
    obtain ⟨rfl, rfl⟩ := h
    rw [Entry.examined]
    exact ⟨.nil, rfl⟩
  | case2 level key body rest ihbody ihrest =>
    obtain ⟨b, bs, first, second, hbuilt, hrest, rfl, rfl⟩ := buildEntries_cons_eq_ok h
    obtain ⟨hbs, hsecond⟩ := ihrest hlevel hrest
    rw [← dotted_append hlevel] at hbuilt
    rw [Entry.examined]
    cases hbuilt with
    | @action fields label actionId hlabel haction =>
      have hholds := Object.holds_of_text haction
      have hkept : (Value.object fields).isBinding = true := by
        rw [Value.isBinding, hholds, Bool.true_or]
      refine ⟨?_, ?_⟩
      · rw [List.filter_cons, if_pos hkept]
        exact .cons (.action hlabel haction) hbs
      · rw [Value.submenu_of_action hholds, Entry.examined, hsecond]
        rw [List.filter_cons, if_neg (by simp [Entry.isDropped, hkept])]
        rfl
    | @group fields entries label children _ hlabel haction hentries hchildren =>
      have hkept : (Value.object fields).isBinding = true := by
        rw [Value.isBinding, Object.holds_of_object hentries, Bool.or_true]
      rw [Value.submenu_of_bindings haction hentries] at ihbody ⊢
      -- The children were built under a path that is two keys longer.
      rw [← dotted_append (by simp), List.append_assoc] at hchildren
      obtain ⟨hmade, hfirst⟩ := ihbody (by simp) hchildren
      refine ⟨?_, ?_⟩
      · rw [List.filter_cons, if_pos hkept]
        exact .cons (.group hlabel haction hentries ⟨hmade, Mnemonic.sort_arranged _ _⟩) hbs
      · rw [hfirst, hsecond]
        rw [List.filter_cons, if_neg (by simp [Entry.isDropped, hkept])]
        rw [List.filter_append, List.map_append]
    | @dropped fields haction hbindings =>
      have hnot : (Value.object fields).isBinding = false := by
        rw [Value.isBinding, haction, hbindings, Bool.or_false]
      refine ⟨?_, ?_⟩
      · rw [List.filter_cons, if_neg (by simp [hnot])]
        exact hbs
      · rw [Value.submenu_of_not_holds hbindings, Entry.examined, hsecond]
        rw [List.filter_cons, if_pos (by simp [Entry.isDropped, hnot])]
        rfl

/-- What is built and what is dropped, together. -/
theorem build_spec {chords : ChordSource} {path : String} {entries : Object}
    {siblings : List Binding} (h : (build chords path entries).outcome = .ok siblings) :
    Siblings chords entries siblings ∧
      (build chords path entries).dropped =
        ((Entry.examined [path] entries).filter Entry.isDropped).map Entry.path := by
  have hbuild : build chords path entries =
      ⟨(build chords path entries).dropped, .ok siblings⟩ := by
    rw [← h]
  generalize (build chords path entries).dropped = dropped at hbuild ⊢
  rw [build, Compilation.bind_eq_ok] at hbuild
  obtain ⟨made, first, second, hmade, hsiblings, rfl⟩ := hbuild
  obtain ⟨rfl, rfl⟩ := Compilation.pure_eq_ok.1 hsiblings
  -- The path need not come from keys: as a list of one key it is what `Entry.path` builds on.
  have hpath : path = dotted [path] := (String.intercalate_singleton).symm
  rw [hpath] at hmade
  obtain ⟨hnodes, hdropped⟩ := buildEntries_spec (by simp) hmade
  rw [List.append_nil]
  exact ⟨⟨hnodes, Mnemonic.sort_arranged _ _⟩, hdropped⟩

/-- Entries that compile make the bindings that they stand for, to any depth, and what is logged is
one debug event for each entry that is left out: its dotted path, depth first in source order. -/
theorem build_siblings {chords : ChordSource} {path : String} {entries : Object}
    {siblings : List Binding} (h : (build chords path entries).outcome = .ok siblings) :
    Siblings chords entries siblings ∧
      (build chords path entries).events =
        ((Entry.examined [path] entries).filter Entry.isDropped).map
          (fun e => Event.dropped e.path) ∧
      ∀ event ∈ (build chords path entries).events, event.level = .debug := by
  obtain ⟨hsiblings, hdropped⟩ := build_spec h
  refine ⟨hsiblings, ?_, ?_⟩
  · rw [Compilation.events, hdropped, List.map_map]
    rfl
  · intro event hevent
    obtain ⟨path', _, rfl⟩ := List.mem_map.1 hevent
    rfl

/-- A level with a group, an entry that is left out, actions, and mnemonics out of order. -/
def mixedLevel : Object :=
  [("w", .object [("description", .string "Windows"), ("bindings", .object [])]),
   ("n", .object [("description", .string "Nothing")]),
   ("B", .object [("description", .number "2"), ("actionId", .boolean true)]),
   ("b", .object [("description", .string "Build"), ("actionId", .string "CompileDirty")])]

/-- The bindings and the event of such a level. -/
theorem build_siblings_mixed :
    Siblings .ofChar mixedLevel [
      .action ⟨'b', .ofChar 'b', "Build"⟩ "CompileDirty",
      .action ⟨'B', .ofChar 'B', "2"⟩ "true",
      .group ⟨'w', .ofChar 'w', "Windows"⟩ []] ∧
    (build .ofChar "bindings" mixedLevel).events = [.dropped "bindings.n"] := by
  have hBb : Mnemonic.before 'B' 'b' = false := by decide +kernel
  have hwb : Mnemonic.before 'w' 'b' = false := by decide +kernel
  have hwB : Mnemonic.before 'w' 'B' = false := by decide +kernel
  -- Evaluated for any chords, because those of the host need not be known.
  have h (chords : ChordSource) : (build chords "bindings" mixedLevel).outcome = .ok [
      .action ⟨'b', chords 'b', "Build"⟩ "CompileDirty",
      .action ⟨'B', chords 'B', "2"⟩ "true",
      .group ⟨'w', chords 'w', "Windows"⟩ []] :=
    calc (build chords "bindings" mixedLevel).outcome
        = .ok (arrange [.group ⟨'w', chords 'w', "Windows"⟩ (arrange []),
          .action ⟨'B', chords 'B', "2"⟩ "true",
          .action ⟨'b', chords 'b', "Build"⟩ "CompileDirty"]) := rfl
      _ = _ := by simp [arrange, Mnemonic.sort_cons, key, label, hBb, hwb, hwB]
  obtain ⟨hsiblings, hevents, _⟩ := build_siblings (h .ofChar)
  refine ⟨hsiblings, ?_⟩
  rw [hevents]
  decide +kernel

end Binding

/-- The root bindings of a config are those that the root entries of its document stand for. -/
theorem Document.siblings_of_compile {d : Document} {chords : ChordSource} {config : Config}
    (h : (d.compile chords).outcome = .ok config) :
    Binding.Siblings chords d.entries config.bindings := by
  have hcompile : d.compile chords = ⟨(d.compile chords).dropped, .ok config⟩ := by
    rw [← h]
  rw [compile_eq, Compilation.bind_eq_ok] at hcompile
  obtain ⟨title, _, _, _, hcompile, _⟩ := hcompile
  rw [Compilation.bind_eq_ok] at hcompile
  obtain ⟨bindings, dropped, _, hbindings, hconfig, _⟩ := hcompile
  obtain ⟨_, rfl⟩ := Compilation.pure_eq_ok.1 hconfig
  split_ifs at hbindings with hpath
  · rw [Compilation.ofAccess_bind_eq_ok] at hbindings
    obtain ⟨entries, hentries, hbuild⟩ := hbindings
    rw [d.entries_of_object hentries]
    exact (Binding.build_spec (by rw [hbuild])).1
  · obtain ⟨_, rfl⟩ := Compilation.pure_eq_ok.1 hbindings
    rw [Bool.not_eq_true] at hpath
    rw [d.entries_of_not_hasPath hpath]
    exact ⟨.nil, Mnemonic.arranged_nil _⟩

end LeaderKey
