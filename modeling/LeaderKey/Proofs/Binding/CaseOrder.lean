import LeaderKey.Proofs.Binding.Dispatch
import LeaderKey.Proofs.Text.Case

/-!
# The two cases of a letter among siblings

Siblings are shown by the lower case of their mnemonics, and a letter in lower case is to stand in
front of the same letter in upper case. Siblings of one lower case are compared by descending code
point, which achieves this where the upper case has the smaller code point (`Early`), as in nearly
all of Unicode. `build_lowercase_first` says that this is the exact extent: all other upper-case
letters stand in front of their lower case, and `uppercase_first` shows one that does.
-/

namespace LeaderKey.Binding

/-- Every sibling on `l` stands in front of every sibling on `u`. -/
def InFront (l u : Char) (siblings : List Binding) : Prop :=
  siblings.Pairwise fun a b => a.key = u → b.key ≠ l

/-- The code point of `u` is below that of its lower case. -/
def Early (u : Char) : Prop := u.toNat < (Text.lower u).toNat

variable {siblings : List Binding} {l u : Char}

/-- The siblings that entries stand for are in the order of their mnemonics. -/
theorem Siblings.ordered {chords : ChordSource} {entries : Object}
    (h : Siblings chords entries siblings) :
    siblings.Pairwise fun a b => Mnemonic.Precedes a.key b.key := by
  cases h with
  | intro _ harranged => exact harranged.ordered

/-- Mnemonics that precede one another have their lower cases in order. -/
theorem lower_le_of_precedes (h : Mnemonic.Precedes l u) :
    (Text.lower l).toNat ≤ (Text.lower u).toNat := by
  rcases h with hlt | ⟨heq, -⟩
  · exact hlt.le
  · rw [heq]

/-- Of one lower case, the character with the greater code point precedes the other. -/
theorem precedes_iff_of_lower_eq (h : Text.lower l = Text.lower u) :
    Mnemonic.Precedes l u ↔ u.toNat ≤ l.toNat := by
  rw [Mnemonic.Precedes, h, eq_self, true_and, or_iff_right (lt_irrefl _)]

/-- All siblings on one character stand in front of all siblings on another one that does not
precede it. -/
theorem inFront_of_not_precedes
    (hordered : siblings.Pairwise fun a b => Mnemonic.Precedes a.key b.key)
    (h : ¬ Mnemonic.Precedes u l) : InFront l u siblings := by
  refine hordered.imp fun hab ha hb => h ?_
  rwa [ha, hb] at hab

/-- At every level of what compiles, the siblings stand in the order of their lower cases. Those on
a letter in lower case stand in front of those on the same letter in upper case if the upper case
has the smaller code point; otherwise they stand behind them. -/
theorem build_lowercase_first {chords : ChordSource} {path : String} {entries : Object}
    (h : (build chords path entries).outcome = .ok siblings) (keys : List Char) :
    ∀ level ∈ levelsAt siblings keys,
      (level.Pairwise fun a b => (Text.lower a.key).toNat ≤ (Text.lower b.key).toNat) ∧
      ∀ l u, Text.isUppercase l = false → Text.isUppercase u = true →
        Text.lower l = Text.lower u →
        (Early u → InFront l u level) ∧ (¬ Early u → InFront u l level) := by
  intro level hlevel
  obtain ⟨inner, hinner⟩ := (build_spec h).1.level keys level hlevel
  have hordered := hinner.ordered
  refine ⟨hordered.imp lower_le_of_precedes, fun l u hl hu hlower => ?_⟩
  have hearly : u.toNat < l.toNat ↔ Early u := Text.lt_iff_lt_lower hl hu hlower
  have hne : u.toNat ≠ l.toNat := by
    intro heq
    rw [Char.toNat_inj.1 heq, hl] at hu
    cases hu
  constructor
  · intro hyes
    refine inFront_of_not_precedes hordered ?_
    rw [precedes_iff_of_lower_eq hlower.symm, Nat.not_le]
    exact hearly.2 hyes
  · intro hno
    refine inFront_of_not_precedes hordered ?_
    rw [precedes_iff_of_lower_eq hlower, Nat.not_le]
    exact Nat.lt_of_le_of_ne (Nat.not_lt.1 (mt hearly.1 hno)) hne.symm

/-- Two letters in both cases, of which `Ÿ` has a greater code point than its lower case. -/
def casePairs : Object :=
  [("A", .object [("description", .string "A"), ("actionId", .string "A")]),
   ("a", .object [("description", .string "a"), ("actionId", .string "a")]),
   ("ÿ", .object [("description", .string "ÿ"), ("actionId", .string "ÿ")]),
   ("Ÿ", .object [("description", .string "Ÿ"), ("actionId", .string "Ÿ")])]

/-- The bindings of these entries. -/
theorem build_casePairs (chords : ChordSource) :
    ∃ siblings, (build chords "bindings" casePairs).outcome = .ok siblings ∧
      siblings.map key = ['a', 'A', 'Ÿ', 'ÿ'] := by
  have hsecond : Mnemonic.before 'ÿ' 'Ÿ' = false := by decide +kernel
  have hlower : Mnemonic.before 'a' 'Ÿ' = true := by decide +kernel
  have hfirst : Mnemonic.before 'A' 'a' = false := by decide +kernel
  have hupper : Mnemonic.before 'A' 'Ÿ' = true := by decide +kernel
  refine ⟨arrange [.action ⟨'A', chords 'A', "A"⟩ "A", .action ⟨'a', chords 'a', "a"⟩ "a",
    .action ⟨'ÿ', chords 'ÿ', "ÿ"⟩ "ÿ", .action ⟨'Ÿ', chords 'Ÿ', "Ÿ"⟩ "Ÿ"], rfl, ?_⟩
  simp [arrange, Mnemonic.sort_cons, key, label, hsecond, hlower, hfirst, hupper]

/-- One of these letters has its lower case in front, the other has it behind. -/
theorem build_lowercase_first_casePairs :
    ∃ siblings, (build .ofChar "bindings" casePairs).outcome = .ok siblings ∧
      InFront 'a' 'A' siblings ∧ InFront 'Ÿ' 'ÿ' siblings := by
  obtain ⟨siblings, h, -⟩ := build_casePairs .ofChar
  have hroot := (build_lowercase_first h [] siblings List.mem_cons_self).2
  refine ⟨siblings, h, ?_, ?_⟩
  · exact (hroot 'a' 'A' (by decide) (by decide) (by decide)).1 (by unfold Early; decide)
  · exact (hroot 'ÿ' 'Ÿ' (by decide) (by decide) (by decide)).2 (by unfold Early; decide)

/-- An upper-case letter that stands in front of its lower case. -/
theorem uppercase_first :
    Text.isUppercase 'ÿ' = false ∧ Text.isUppercase 'Ÿ' = true ∧
      Text.lower 'ÿ' = Text.lower 'Ÿ' ∧
      ∃ siblings, (build .ofChar "bindings" casePairs).outcome = .ok siblings ∧
        ¬ InFront 'ÿ' 'Ÿ' siblings := by
  refine ⟨by decide, by decide, by decide, ?_⟩
  obtain ⟨siblings, h, hkeys⟩ := build_casePairs .ofChar
  refine ⟨siblings, h, fun hfront => ?_⟩
  have hpairs : (siblings.map key).Pairwise fun a b => a = 'Ÿ' → b ≠ 'ÿ' :=
    List.pairwise_map.2 hfront
  rw [hkeys] at hpairs
  revert hpairs
  decide

end LeaderKey.Binding
