import LeaderKey.Proofs.Grammar.Reads
import LeaderKey.Proofs.Value.Keyed

/-!
# What holds of all values in a document

Every object that a text describes is made by inserting fields into an empty object. So a property
that objects hand down and keep holds of everything in a document if it holds of the scalars that
are read and of lists whose items have it (`Document.all_of_parse`). In particular no object in a
parsed document holds a key twice (`Document.keyed_of_parse`).
-/

namespace LeaderKey

/-- The object of a list of fields has a property that all their values have. -/
theorem Value.Heritable.ofFields {P : Value → Prop} (hP : Heritable P) {fs : List Field}
    (h : ∀ f ∈ fs, P f.value) : P (.object (Object.ofFields fs)) := by
  have hfold (o : Object) (ho : P (.object o)) :
      P (.object (fs.foldl (fun o f => Object.insertPath o f.path f.value) o)) := by
    induction fs generalizing o with
    | nil => exact ho
    | cons f rest ih =>
      rw [List.foldl_cons]
      refine ih (fun f' hf' => h f' (List.mem_cons_of_mem _ hf')) _ ?_
      exact hP.insertPath ho f.path (h f List.mem_cons_self)
  exact hfold [] hP.empty

namespace Grammar

/-- All values in a phrase have a property. -/
def Phrase.All (P : Value → Prop) : Phrase → Prop
  | .value v => P v
  | .field f => P f.value
  | .items vs => ∀ v ∈ vs, P v
  | .fields _ fs => ∀ f ∈ fs, P f.value

/-- What holds of scalars holds of everything that is read, if lists and objects keep it. -/
theorem Reads.all {P : Value → Prop} (hP : Value.Heritable P)
    (hlist : ∀ vs : List Value, (∀ v ∈ vs, P v) → P (.list vs))
    (hscalar : ∀ {s rest : List Char} {v : Value}, Grammar.scalar s = .ok (some (v, rest)) → P v)
    {p : Phrase} {s rest : List Char} (h : Reads p s rest) : p.All P := by
  induction h with
  | object _ ih => exact hP.ofFields ih
  | list _ ih => exact hlist _ ih
  | scalar h => exact hscalar h
  | field _ _ _ ih => exact ih
  | itemsEnd _ => simp [Phrase.All]
  | itemsCons _ _ _ ihvalue ihitems => exact List.forall_mem_cons.2 ⟨ihvalue, ihitems⟩
  | fieldsEnd _ => simp [Phrase.All]
  | fieldsCons _ _ _ ihfield ihfields => exact List.forall_mem_cons.2 ⟨ihfield, ihfields⟩

/-- A bare word that stands alone is no list and no object. If it is a number, it spells it. -/
theorem wordValue_cases (word : List Char) :
    wordValue word = .null ∨ (∃ b, wordValue word = .boolean b) ∨
      (∃ text, wordValue word = .string text) ∨
      wordValue word = .number (String.ofList word) := by
  unfold wordValue
  split_ifs
  · exact Or.inl rfl
  · exact Or.inr (Or.inl ⟨true, rfl⟩)
  · exact Or.inr (Or.inl ⟨false, rfl⟩)
  · exact Or.inr (Or.inr (Or.inr rfl))
  · exact Or.inr (Or.inr (Or.inl ⟨_, rfl⟩))

/-- A scalar is no list and no object. If it is a number, a bare word spells it. -/
theorem scalar_cases {s rest : List Char} {v : Value} (h : scalar s = .ok (some (v, rest))) :
    v = .null ∨ (∃ b, v = .boolean b) ∨ (∃ text, v = .string text) ∨
      ∃ word after, token s = .ok (some (.bare word, after)) ∧
        wordValue word = .number (String.ofList word) ∧ v = .number (String.ofList word) := by
  unfold scalar at h
  split at h
  · cases h
  · cases h
  · rename_i first after ht
    obtain ⟨⟨more, _⟩, _, heq⟩ := of_map_eq_ok h
    cases heq
    unfold tokensValue
    split
    · rename_i word _
      rcases wordValue_cases word with hnull | ⟨b, hb⟩ | ⟨text, htext⟩ | hnumber
      · exact Or.inl hnull
      · exact Or.inr (Or.inl ⟨b, hb⟩)
      · exact Or.inr (Or.inr (Or.inl ⟨text, htext⟩))
      · exact Or.inr (Or.inr (Or.inr ⟨word, after, ht, hnumber, hnumber⟩))
    · exact Or.inr (Or.inr (Or.inl ⟨_, rfl⟩))

/-- A scalar is keyed, as it is no object. -/
theorem keyed_of_scalar {s rest : List Char} {v : Value} (h : scalar s = .ok (some (v, rest))) :
    v.Keyed := by
  obtain rfl | ⟨b, rfl⟩ | ⟨text, rfl⟩ | ⟨word, _, _, _, rfl⟩ := scalar_cases h
  · exact .null
  · exact .boolean b
  · exact .string text
  · exact .number _

/-- What is read is keyed. -/
theorem Reads.keyed {p : Phrase} {s rest : List Char} (h : Reads p s rest) : p.All Value.Keyed :=
  h.all Value.heritable_keyed (fun _ hitems => .list hitems) keyed_of_scalar

end Grammar

namespace Document

/-- A document is what the fields of the text describe. -/
theorem parse_eq_ok_iff {text : String} {d : Document} :
    parse text = .ok d ↔
      ∃ fs, Grammar.document text.toList = .ok fs ∧ d = ⟨Object.ofFields fs⟩ := by
  constructor
  · intro h
    unfold parse at h
    split at h
    · rename_i fs hfs
      cases h
      exact ⟨fs, hfs, rfl⟩
    · cases h
  · rintro ⟨fs, hfs, rfl⟩
    unfold parse
    rw [hfs]

/-- What holds of all scalars holds of the root of a document, if lists and objects keep it. -/
theorem all_of_parse {P : Value → Prop} (hP : Value.Heritable P)
    (hlist : ∀ vs : List Value, (∀ v ∈ vs, P v) → P (.list vs))
    (hscalar : ∀ {s rest : List Char} {v : Value},
      Grammar.scalar s = .ok (some (v, rest)) → P v)
    {text : String} {d : Document} (h : parse text = .ok d) : P (.object d.root) := by
  obtain ⟨fs, hfs, rfl⟩ := parse_eq_ok_iff.1 h
  obtain ⟨closing, start, after, hreads⟩ := Grammar.reads_of_document hfs
  exact hP.ofFields (hreads.all hP hlist hscalar)

/-- No object in a parsed document holds a key twice. -/
theorem keyed_of_parse {text : String} {d : Document} (h : parse text = .ok d) : d.root.Keyed :=
  all_of_parse Value.heritable_keyed (fun _ hitems => .list hitems) Grammar.keyed_of_scalar h

end Document

end LeaderKey
