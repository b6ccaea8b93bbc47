import LeaderKey.Text.Case
import Mathlib.Data.List.Chain
import Mathlib.Data.List.Flatten
import Mathlib.Data.List.Infix

/-!
# The case tables as sets of code points

The tables of the case mappings are searched run by run. Here a run is the list of its code points,
so that tables can be compared: `isUppercase_or_isTitlecase` says that a character with a lower case
other than itself is an upper-case character, or a title-case one such as `ǅ`, and `lt_iff_lt_lower`
how an upper-case character stands to the others of its lower case. What depends on the tables
themselves is checked by going through them.
-/

namespace LeaderKey.Text

/-! ## Runs -/

namespace Stride

/-- The code points of a run. -/
def points (run : Stride) : List Nat :=
  List.range' run.1 ((run.2.1 - run.1) / run.2.2 + 1) run.2.2

variable {run : Stride} {runs : List Stride} {n : Nat}

/-- What a run holds is one of its code points. -/
theorem mem_points_of_holds (h : run.holds n = true) : n ∈ run.points := by
  simp only [holds, Bool.and_eq_true, decide_eq_true_eq, beq_iff_eq] at h
  obtain ⟨⟨hfirst, hlast⟩, hstep⟩ := h
  refine List.mem_range'.2 ⟨(n - run.1) / run.2.2, ?_, ?_⟩
  · exact Nat.lt_succ_of_le (Nat.div_le_div_right (Nat.sub_le_sub_right hlast _))
  · rw [Nat.mul_div_cancel' (Nat.dvd_of_mod_eq_zero hstep), Nat.add_sub_cancel' hfirst]

/-- The code points of a run that is not empty are those it holds. -/
theorem mem_points_iff (hrun : run.1 ≤ run.2.1) : n ∈ run.points ↔ run.holds n = true := by
  refine ⟨fun h => ?_, mem_points_of_holds⟩
  obtain ⟨i, hi, rfl⟩ := List.mem_range'.1 h
  have hle : run.2.2 * i ≤ run.2.1 - run.1 :=
    (Nat.mul_le_mul_left _ (Nat.le_of_lt_succ hi)).trans (Nat.mul_div_le _ _)
  simp only [holds, Bool.and_eq_true, decide_eq_true_eq, beq_iff_eq, Nat.add_sub_cancel_left,
    Nat.mul_mod_right, and_true]
  omega

/-- Runs that a search finds its way through: none is empty, and each begins above the one
before. -/
structure Ascending (runs : List Stride) : Prop where
  nonempty : ∀ run ∈ runs, run.1 ≤ run.2.1
  chain : runs.IsChain fun a b => a.1 < b.1

instance (runs : List Stride) : Decidable (Ascending runs) :=
  decidable_of_iff ((∀ run ∈ runs, run.1 ≤ run.2.1) ∧ runs.IsChain fun a b => a.1 < b.1)
    ⟨fun h => ⟨h.1, h.2⟩, fun h => ⟨h.nonempty, h.chain⟩⟩

/-- The search finds the code points of the runs. -/
theorem Ascending.contains_iff (h : Ascending runs) :
    contains n runs = true ↔ n ∈ runs.flatMap points := by
  induction runs with
  | nil => simp [contains]
  | cons run rest ih =>
    obtain ⟨hfirst, hrest⟩ := List.pairwise_cons.1 (List.isChain_iff_pairwise.1 h.chain)
    have hbelow : Ascending rest :=
      ⟨fun b hb => h.nonempty b (List.mem_cons_of_mem run hb), List.isChain_iff_pairwise.2 hrest⟩
    rw [contains, Bool.and_eq_true, Bool.or_eq_true, ih hbelow, List.flatMap_cons, List.mem_append,
      mem_points_iff (h.nonempty run List.mem_cons_self)]
    refine and_iff_right_of_imp fun hholds => ?_
    -- Every run from here on begins at `run` or above it, so none of them holds less.
    have hle (b : Stride) (hb : b.holds n = true) : b.1 ≤ n := by
      simp only [holds, Bool.and_eq_true, decide_eq_true_eq] at hb
      exact hb.1.1
    rw [Bool.not_eq_true', decide_eq_false_iff_not, Nat.not_lt]
    rcases hholds with hholds | hholds
    · exact hle run hholds
    · obtain ⟨b, hb, hpoint⟩ := List.mem_flatMap.1 hholds
      exact (hfirst b hb).le.trans (hle b ((mem_points_iff (hbelow.nonempty b hb)).1 hpoint))

end Stride

namespace CaseRun

/-- The sources of a run. -/
def sources (run : CaseRun) : Stride := (run.first, run.last, run.step)

/-- The code point that a run maps to `n`, if there is one. -/
def source? (n : Nat) (run : CaseRun) : Option Nat :=
  let m := run.first + (n - run.target)
  if run.target ≤ n ∧ run.holds m then some m else none

/-- What runs give for a code point is the code point itself, or its target in a run. -/
theorem apply_cases (n : Nat) (runs : List CaseRun) : apply n runs = n ∨
    ∃ run ∈ runs, run.holds n = true ∧ apply n runs = run.target + (n - run.first) := by
  induction runs with
  | nil => exact Or.inl rfl
  | cons run rest ih =>
    rw [apply]
    split_ifs with hbelow hholds
    · exact Or.inl rfl
    · exact Or.inr ⟨run, List.mem_cons_self, hholds, rfl⟩
    · refine ih.imp_right ?_
      rintro ⟨other, hmem, h⟩
      exact ⟨other, List.mem_cons_of_mem run hmem, h⟩

/-- The code points for which runs may give `n`: `n` itself, and its sources in the runs. -/
def preimages (n : Nat) (runs : List CaseRun) : List Nat := n :: runs.filterMap (source? n)

/-- A code point is one of those for which runs may give what they give for it. -/
theorem mem_preimages_apply (n : Nat) (runs : List CaseRun) :
    n ∈ preimages (apply n runs) runs := by
  obtain hself | ⟨run, hmem, hholds, htarget⟩ := apply_cases n runs
  · rw [hself]
    exact List.mem_cons_self
  · have hback : run.first + (apply n runs - run.target) = n := by
      simp only [holds, Bool.and_eq_true, decide_eq_true_eq] at hholds
      omega
    refine List.mem_cons_of_mem _ (List.mem_filterMap.2 ⟨run, hmem, ?_⟩)
    rw [source?, hback, if_pos ⟨by omega, hholds⟩]

end CaseRun

/-! ## Tables -/

/-- The code points of upper-case characters are those of the table. -/
theorem isUppercase_iff {c : Char} :
    isUppercase c = true ↔ c.toNat ∈ uppercase.flatMap Stride.points := by
  have hascending : Stride.Ascending uppercase := by decide +kernel
  exact hascending.contains_iff

/-- The general category of title-case letters. -/
def titlecase : List Stride :=
  [(0x1C5, 0x1CB, 3), (0x1F2, 0x1F2, 1), (0x1F88, 0x1F8F, 1), (0x1F98, 0x1F9F, 1),
   (0x1FA8, 0x1FAF, 1), (0x1FBC, 0x1FCC, 0x10), (0x1FFC, 0x1FFC, 1)]

/-- Whether `c` is a title-case letter. -/
def isTitlecase (c : Char) : Bool := Stride.contains c.toNat titlecase

/-- The code points of title-case letters are those of the table. -/
theorem isTitlecase_iff {c : Char} :
    isTitlecase c = true ↔ c.toNat ∈ titlecase.flatMap Stride.points := by
  have hascending : Stride.Ascending titlecase := by decide
  exact hascending.contains_iff

/-- The targets of the lower case are code points of characters. -/
theorem isValidChar_lower (c : Char) : (CaseRun.apply c.toNat lowerRuns).isValidChar := by
  have hruns : ∀ run ∈ lowerRuns, run.target + (run.last - run.first) < 0xD800 ∨
      0xDFFF < run.target ∧ run.target + (run.last - run.first) < 0x110000 := by
    decide +kernel
  rcases CaseRun.apply_cases c.toNat lowerRuns with h | ⟨run, hmem, hholds, h⟩
  · rw [h]
    exact c.valid
  · simp only [CaseRun.holds, Bool.and_eq_true, decide_eq_true_eq] at hholds
    have hrun := hruns run hmem
    rw [h, Nat.isValidChar]
    omega

/-- The code point of the lower case. -/
theorem toNat_lower (c : Char) : (lower c).toNat = CaseRun.apply c.toNat lowerRuns := by
  rw [lower, Char.ofNat, dif_pos (isValidChar_lower c)]
  rfl

/-- A character is its own lower case, or a run maps it to its lower case. -/
theorem lower_cases (c : Char) : lower c = c ∨ ∃ run ∈ lowerRuns, run.holds c.toNat = true ∧
    (lower c).toNat = run.target + (c.toNat - run.first) := by
  rw [← Char.toNat_inj, toNat_lower]
  exact CaseRun.apply_cases c.toNat lowerRuns

/-- A character with a lower case other than itself is an upper-case or a title-case character. -/
theorem isUppercase_or_isTitlecase {c : Char} (h : lower c ≠ c) :
    isUppercase c = true ∨ isTitlecase c = true := by
  obtain ⟨run, hmem, hholds, -⟩ := (lower_cases c).resolve_left h
  have htable : ((lowerRuns.flatMap fun run => run.sources.points).filter fun n =>
      !Stride.contains n titlecase).isSublist (uppercase.flatMap Stride.points) = true := by
    decide +kernel
  refine or_iff_not_imp_right.2 fun htitle => isUppercase_iff.2 ?_
  refine (List.isSublist_iff_sublist.1 htable).subset (List.mem_filter.2 ⟨?_, ?_⟩)
  · exact List.mem_flatMap.2 ⟨run, hmem, Stride.mem_points_of_holds hholds⟩
  · rw [Bool.not_eq_true', ← Bool.not_eq_true]
    exact htitle

/-- A title-case letter has an upper-case letter of its lower case only below both of them. -/
theorem lt_of_isTitlecase {t u : Char} (ht : isTitlecase t = true) (hu : isUppercase u = true)
    (h : lower t = lower u) : u.toNat < t.toNat ∧ u.toNat < (lower u).toNat := by
  have htable : ∀ t ∈ titlecase.flatMap Stride.points,
      ∀ u ∈ CaseRun.preimages (CaseRun.apply t lowerRuns) lowerRuns,
      Stride.contains u uppercase = true → u < t ∧ u < CaseRun.apply t lowerRuns := by
    decide +kernel
  rw [← Char.toNat_inj, toNat_lower, toNat_lower] at h
  rw [toNat_lower, ← h]
  refine htable t.toNat (isTitlecase_iff.1 ht) u.toNat ?_ hu
  rw [h]
  exact CaseRun.mem_preimages_apply _ _

/-- An upper-case character has a smaller code point than a character of its lower case that is none
exactly if it has a smaller one than the lower case. -/
theorem lt_iff_lt_lower {l u : Char} (hl : isUppercase l = false) (hu : isUppercase u = true)
    (h : lower l = lower u) : u.toNat < l.toNat ↔ u.toNat < (lower u).toNat := by
  by_cases hself : lower l = l
  · rw [← h, hself]
  · have htitle : isTitlecase l = true :=
      (isUppercase_or_isTitlecase hself).resolve_left (Bool.eq_false_iff.1 hl)
    obtain ⟨hlt, hlower⟩ := lt_of_isTitlecase htitle hu h
    exact iff_of_true hlt hlower

end LeaderKey.Text
