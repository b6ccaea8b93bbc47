import LeaderKey.Proofs.Chord.Modifiers
import Mathlib.Data.List.Basic

/-!
# Characters of one chord

A chord keeps of its character the code of the key and whether Shift is held. Where a key has a code
of its own, these two determine the character. All other codes are made of the lower case, so they
lose what tells two characters of one lower case apart, if these are both upper-case characters or
neither is. Such characters are twins (`KeyChord.Twins`), and `KeyChord.ofChar_beq_iff` is the theorem
that twins are all the pairs that chords confuse.
-/

namespace LeaderKey

namespace KeyCode

/-- The characters from one to another, by code point. -/
def through (first last : Char) : List Char :=
  (List.range' first.toNat (last.toNat + 1 - first.toNat)).map Char.ofNat

/-- The characters whose keys have a code of their own: the letters and digits of ASCII, and those of
the two tables. -/
def named : List Char :=
  through 'a' 'z' ++ (through 'A' 'Z' ++ (through '0' '9' ++ (plain ++ punctuation.map Prod.fst)))

/-- A character between two others is one of those from the first to the second. -/
theorem mem_through {first last c : Char} (h : first ≤ c ∧ c ≤ last) : c ∈ through first last := by
  have hfirst : first.toNat ≤ c.toNat := h.1
  have hlast : c.toNat ≤ last.toNat := h.2
  exact List.mem_map.2 ⟨c.toNat, List.mem_range'_1.2 ⟨hfirst, by omega⟩, Char.ofNat_toNat c⟩

/-- Without a code of its own, a key has the code of the lower case of what it types. -/
theorem ofChar_of_not_mem {c : Char} (h : c ∉ named) :
    ofChar c = ⟨extendedBase + (Text.lower c).val⟩ := by
  simp only [named, List.mem_append, not_or] at h
  obtain ⟨hlower, hupper, hdigit, hplain, hpunctuation⟩ := h
  have hlookup : punctuation.lookup c = none := by
    refine List.lookup_eq_none_iff.2 fun entry hentry => ?_
    rw [bne_iff_ne]
    rintro rfl
    exact hpunctuation (List.mem_map_of_mem hentry)
  have hplainly : ¬ (('A' ≤ c ∧ c ≤ 'Z') ∨ ('0' ≤ c ∧ c ≤ '9') ∨ c ∈ plain) :=
    not_or.2 ⟨mt mem_through hupper, not_or.2 ⟨mt mem_through hdigit, hplain⟩⟩
  rw [ofChar, if_neg (mt mem_through hlower), if_neg hplainly, hlookup]

/-- The character that a key with a code of its own types, with Shift or without. -/
def character (code : KeyCode) (shift : Bool) : Char :=
  match punctuation.find? fun entry => entry.2 == code.val with
  | some (c, _) => c
  | none =>
    let c := Char.ofNat code.val.toNat
    if shift then c else c.toLower

/-- The code and Shift tell the characters apart whose keys have codes of their own. -/
theorem character_ofChar {c : Char} (h : c ∈ named) :
    character (ofChar c) (Text.isUppercase c) = c := by
  have hall : named.all (fun c => character (ofChar c) (Text.isUppercase c) == c) = true := by
    decide +kernel
  exact beq_iff_eq.1 (List.all_eq_true.1 hall c h)

/-- The number of an extended code: nothing is lost in the sum. -/
theorem toNat_extended (c : Char) :
    (extendedBase + c.val).toNat = 0x01000000 + c.toNat := by
  have hbound : c.toNat < 0x110000 := by
    have hvalid : c.toNat.isValidChar := c.valid
    rw [Nat.isValidChar] at hvalid
    omega
  rw [UInt32.toNat_add]
  change (0x01000000 + c.toNat) % 2 ^ 32 = _
  omega

/-- The keys with a code of their own are those whose code is not extended. -/
theorem isExtended_ofChar {c : Char} : (ofChar c).isExtended = true ↔ c ∉ named := by
  constructor
  · intro hextended hnamed
    have hown : named.all (fun c => !(ofChar c).isExtended) = true := by decide +kernel
    have hnot := List.all_eq_true.1 hown c hnamed
    rw [hextended] at hnot
    cases hnot
  · intro h
    rw [ofChar_of_not_mem h, isExtended, decide_eq_true_eq, UInt32.le_iff_toNat_le, toNat_extended]
    exact Nat.le_add_right _ _

end KeyCode

namespace KeyChord

/-- Two characters that share a lower case, are both upper-case characters or both none, and have no
keys with codes of their own. -/
structure Twins (c d : Char) : Prop where
  ne : c ≠ d
  left : c ∉ KeyCode.named
  right : d ∉ KeyCode.named
  lower : Text.lower c = Text.lower d
  isUppercase : Text.isUppercase c = Text.isUppercase d

/-- The chords of two characters are equal if they have one code and both or neither need Shift. -/
theorem ofChar_beq {c d : Char} : (ofChar c == ofChar d) = true ↔
    KeyCode.ofChar c = KeyCode.ofChar d ∧ Text.isUppercase c = Text.isUppercase d := by
  rw [beq_iff]
  refine and_congr_right fun _ => ?_
  change Modifier.normalize (if Text.isUppercase c then [.shift] else []) =
    Modifier.normalize (if Text.isUppercase d then [.shift] else []) ↔ _
  rw [Modifier.normalize_eq_iff]
  cases Text.isUppercase c <;> cases Text.isUppercase d <;> simp

/-- Two characters have equal chords exactly if they are the same or twins. -/
theorem ofChar_beq_iff {c d : Char} :
    (ofChar c == ofChar d) = true ↔ c = d ∨ Twins c d := by
  rw [ofChar_beq]
  constructor
  · rintro ⟨hcode, hcase⟩
    have hnamed : c ∈ KeyCode.named ↔ d ∈ KeyCode.named := by
      rw [← not_iff_not, ← KeyCode.isExtended_ofChar, ← KeyCode.isExtended_ofChar, hcode]
    by_cases hc : c ∈ KeyCode.named
    · left
      rw [← KeyCode.character_ofChar hc, ← KeyCode.character_ofChar (hnamed.1 hc), hcode, hcase]
    · have hd : d ∉ KeyCode.named := fun hd => hc (hnamed.2 hd)
      rw [KeyCode.ofChar_of_not_mem hc, KeyCode.ofChar_of_not_mem hd, KeyCode.mk.injEq,
        UInt32.add_right_inj] at hcode
      have hlower : Text.lower c = Text.lower d := Char.ext hcode
      exact or_iff_not_imp_left.2 fun hne => ⟨hne, hc, hd, hlower, hcase⟩
  · rintro (rfl | h)
    · exact ⟨rfl, rfl⟩
    · refine ⟨?_, h.isUppercase⟩
      rw [KeyCode.ofChar_of_not_mem h.left, KeyCode.ofChar_of_not_mem h.right, h.lower]

/-- The letter `ǅ`, which is neither an upper-case nor a lower-case one, and its lower case `ǆ`. -/
example : Twins 'ǅ' 'ǆ' := ⟨by decide, by decide, by decide, by decide, by decide⟩

end KeyChord

end LeaderKey
