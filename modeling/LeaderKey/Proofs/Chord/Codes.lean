import LeaderKey.Proofs.Chord.Twins
import LeaderKey.Proofs.Text.Case

/-!
# Key codes and lower case

The keys of both cases of a letter have one code, and the keys of different letters have different
ones. `ofChar_eq_iff` says this of all characters: a code stands for a lower case, with two
exceptions. A key with a code of its own is found by the character itself and not by its lower case,
so it misses the characters outside of the tables whose lower case is inside of them (`strays`);
these have codes that no other character of their lower case has, as the kelvin sign shows
(`ofChar_kelvin_ne`).
-/

namespace LeaderKey.KeyCode

/-- The characters without a key of their own whose lower case has one: `İ` and the kelvin sign. -/
def strays : List Char := ['\u0130', '\u212A']

/-- The lower case of a character with a code of its own has the same code. -/
theorem lower_of_mem_named {c : Char} (h : c ∈ named) :
    Text.lower c ∈ named ∧ ofChar (Text.lower c) = ofChar c := by
  have hall : named.all (fun c =>
      decide (Text.lower c ∈ named ∧ ofChar (Text.lower c) = ofChar c)) = true := by
    decide +kernel
  exact of_decide_eq_true (List.all_eq_true.1 hall c h)

/-- A code of its own tells the lower case of the characters that have it. -/
theorem character_ofChar_false {c : Char} (h : c ∈ named) :
    character (ofChar c) false = Text.lower c := by
  have hall : named.all (fun c => character (ofChar c) false == Text.lower c) = true := by
    decide +kernel
  exact beq_iff_eq.1 (List.all_eq_true.1 hall c h)

/-- No character of the tables is between `¡` and `€` or beyond them. -/
theorem toNat_of_mem_named {c : Char} (h : c ∈ named) : c.toNat ≤ 0xA1 ∨ c.toNat = 0x20AC := by
  have hall : named.all (fun c => decide (c.toNat ≤ 0xA1 ∨ c.toNat = 0x20AC)) = true := by
    decide +kernel
  exact of_decide_eq_true (List.all_eq_true.1 hall c h)

/-- The strays are all the characters whose lower case, but not they themselves, have a code of
their own. -/
theorem mem_strays_iff {c : Char} : c ∈ strays ↔ c ∉ named ∧ Text.lower c ∈ named := by
  constructor
  · intro h
    simp only [strays, List.mem_cons, List.not_mem_nil, or_false] at h
    rcases h with rfl | rfl <;> decide +kernel
  · rintro ⟨hnot, hlower⟩
    -- Apart from the capitals of ASCII and from the strays, no run comes near the tables.
    have hruns : ∀ run ∈ Text.lowerRuns, run.first = 0x41 ∧ run.last = 0x5A ∨
        run.first = run.last ∧ (run.last = 0x130 ∨ run.last = 0x212A) ∨
        0xA1 < run.target ∧
          (0x20AC < run.target ∨ run.target + (run.last - run.first) < 0x20AC) := by
      decide +kernel
    obtain hself | ⟨run, hmem, hholds, htarget⟩ := Text.lower_cases c
    · exact absurd (hself ▸ hlower) hnot
    · have hbound := toNat_of_mem_named hlower
      simp only [Text.CaseRun.holds, Bool.and_eq_true, decide_eq_true_eq] at hholds
      rcases hruns run hmem with hcapital | ⟨hone, hstray⟩ | hfar
      · rw [hcapital.1, hcapital.2] at hholds
        have hletter : c ∈ through 'A' 'Z' := mem_through ⟨hholds.1.1, hholds.1.2⟩
        exact absurd (List.mem_append_right _ (List.mem_append_left _ hletter)) hnot
      · have hc : c.toNat = run.last := by omega
        rcases hstray with hlast | hlast
        · have hdotted : c = '\u0130' := Char.toNat_inj.1 (hc.trans hlast)
          exact hdotted ▸ List.mem_cons_self
        · have hkelvin : c = '\u212A' := Char.toNat_inj.1 (hc.trans hlast)
          exact hkelvin ▸ List.mem_cons_of_mem _ List.mem_cons_self
      · omega

/-- The characters with a code of their own are those whose lower case has one, but for the
strays. -/
theorem mem_named_iff {c : Char} : c ∈ named ↔ Text.lower c ∈ named ∧ c ∉ strays := by
  constructor
  · intro h
    exact ⟨(lower_of_mem_named h).1, fun hstray => (mem_strays_iff.1 hstray).1 h⟩
  · rintro ⟨hlower, hstray⟩
    by_contra hnot
    exact hstray (mem_strays_iff.2 ⟨hnot, hlower⟩)

/-- Two characters have keys of one code exactly if they share their lower case, and both or none of
them are strays. -/
theorem ofChar_eq_iff (c d : Char) : ofChar c = ofChar d ↔
    Text.lower c = Text.lower d ∧ (c ∈ strays ↔ d ∈ strays) := by
  constructor
  · intro hcode
    have hnamed : c ∈ named ↔ d ∈ named := by
      rw [← not_iff_not, ← isExtended_ofChar, ← isExtended_ofChar, hcode]
    have hlower : Text.lower c = Text.lower d := by
      by_cases hc : c ∈ named
      · rw [← character_ofChar_false hc, hcode, character_ofChar_false (hnamed.1 hc)]
      · rw [ofChar_of_not_mem hc, ofChar_of_not_mem (mt hnamed.2 hc), mk.injEq,
          UInt32.add_right_inj] at hcode
        exact Char.ext hcode
    exact ⟨hlower, by rw [mem_strays_iff, mem_strays_iff, hnamed, hlower]⟩
  · rintro ⟨hlower, hstrays⟩
    have hnamed : c ∈ named ↔ d ∈ named := by
      rw [mem_named_iff, hlower, hstrays, ← mem_named_iff]
    by_cases hc : c ∈ named
    · rw [← (lower_of_mem_named hc).2, hlower, (lower_of_mem_named (hnamed.1 hc)).2]
    · rw [ofChar_of_not_mem hc, ofChar_of_not_mem (mt hnamed.2 hc), hlower]

/-- The lower case of the kelvin sign is `k`, but their keys have different codes. -/
theorem ofChar_kelvin_ne :
    Text.lower '\u212A' = Text.lower 'k' ∧ ofChar '\u212A' ≠ ofChar 'k' := by
  decide

end LeaderKey.KeyCode
