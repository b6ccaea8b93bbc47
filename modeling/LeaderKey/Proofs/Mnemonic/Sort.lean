import LeaderKey.Mnemonic

/-!
# The order of siblings

`Mnemonic.Precedes` is the order of mnemonics in words: by lower case, and within one lower case by
descending code point. `sort_arranged` says that sorting by mnemonics only moves items, puts them in
this order, and keeps items of one mnemonic in the order in which they were. `eq_of_filter_eq` says that
this determines the result: two lists in this order are equal if they have the same items of each
mnemonic. `sort_cons` is the rule for one more item in front.
-/

namespace LeaderKey.Mnemonic

/-- `a` stands before `b`, or they are the same: its lower case has the smaller code point, or they
share the lower case and `a` has the greater code point. -/
def Precedes (a b : Char) : Prop :=
  (Text.lower a).toNat < (Text.lower b).toNat ∨
    Text.lower a = Text.lower b ∧ b.toNat ≤ a.toNat

/-- `before` decides the order. -/
theorem before_iff {a b : Char} : before a b = true ↔ Precedes a b := by
  rw [before, order, Precedes, ← Char.toNat_inj]
  rcases Nat.lt_trichotomy (Text.lower a).toNat (Text.lower b).toNat with hlt | heq | hgt
  · rw [Nat.compare_eq_lt.2 hlt]
    simp [hlt]
  · rw [heq, Nat.compare_eq_eq.2 rfl, Ordering.eq_then, bne_iff_ne, ne_eq, Nat.compare_eq_gt]
    omega
  · rw [Nat.compare_eq_gt.2 hgt]
    simp only [Ordering.gt_then, bne_self_eq_false, Bool.false_eq_true, false_iff]
    omega

/-- The order is transitive. -/
theorem Precedes.trans {a b c : Char} (hab : Precedes a b) (hbc : Precedes b c) :
    Precedes a c := by
  rw [Precedes, ← Char.toNat_inj] at *
  omega

/-- Of two mnemonics, one precedes the other. -/
theorem precedes_total (a b : Char) : Precedes a b ∨ Precedes b a := by
  rw [Precedes, Precedes, ← Char.toNat_inj, ← Char.toNat_inj]
  omega

/-- A mnemonic may stand before itself. -/
@[simp] theorem before_self (a : Char) : before a a = true :=
  before_iff.2 (Or.inr ⟨rfl, Nat.le_refl _⟩)

/-- `before` is transitive. -/
theorem before_trans {a b c : Char} (hab : before a b = true) (hbc : before b c = true) :
    before a c = true :=
  before_iff.2 ((before_iff.1 hab).trans (before_iff.1 hbc))

/-- Of two mnemonics, one may stand before the other. -/
theorem before_total (a b : Char) : (before a b || before b a) = true := by
  rw [Bool.or_eq_true, before_iff, before_iff]
  exact precedes_total a b

/-- How items stand once they are sorted by mnemonics. -/
structure Arranged {α : Type} (mnemonic : α → Char) (items sorted : List α) : Prop where
  /-- They are the same items. -/
  perm : sorted.Perm items
  /-- Their mnemonics are in order. -/
  ordered : sorted.Pairwise fun a b => Precedes (mnemonic a) (mnemonic b)
  /-- Items of one mnemonic keep their order. -/
  stable : ∀ c, (sorted.filter fun a => mnemonic a == c) = items.filter fun a => mnemonic a == c

/-- Only a mnemonic itself both precedes and follows it. -/
theorem Precedes.antisymm {a b : Char} (hab : Precedes a b) (hba : Precedes b a) : a = b := by
  rw [Precedes, ← Char.toNat_inj] at *
  omega

/-- Lists with the same items of each mnemonic have the same items. -/
theorem mem_iff_of_filter_eq {α : Type} {mnemonic : α → Char} {xs ys : List α}
    (h : ∀ c, (xs.filter fun a => mnemonic a == c) = ys.filter fun a => mnemonic a == c) (a : α) :
    a ∈ xs ↔ a ∈ ys := by
  have hfilter (l : List α) : a ∈ l ↔ a ∈ l.filter fun b => mnemonic b == mnemonic a := by
    simp [List.mem_filter]
  rw [hfilter xs, h, ← hfilter ys]

/-- Items in order are determined by those of each mnemonic. -/
theorem eq_of_filter_eq {α : Type} {mnemonic : α → Char} {xs ys : List α}
    (hxs : xs.Pairwise fun a b => Precedes (mnemonic a) (mnemonic b))
    (hys : ys.Pairwise fun a b => Precedes (mnemonic a) (mnemonic b))
    (h : ∀ c, (xs.filter fun a => mnemonic a == c) = ys.filter fun a => mnemonic a == c) :
    xs = ys := by
  have hmem := mem_iff_of_filter_eq h
  induction xs generalizing ys with
  | nil => exact (List.eq_nil_iff_forall_not_mem.2 fun a ha => by cases (hmem a).2 ha).symm
  | cons x xs ih =>
    match ys with
    | [] => cases (hmem x).1 List.mem_cons_self
    | y :: ys =>
      rw [List.pairwise_cons] at hxs hys
      -- Each of the two first items is in the other list, so neither mnemonic precedes the other.
      have hsame : mnemonic y = mnemonic x := by
        rcases List.mem_cons.1 ((hmem x).1 List.mem_cons_self) with rfl | hx
        · rfl
        · rcases List.mem_cons.1 ((hmem y).2 List.mem_cons_self) with rfl | hy
          · rfl
          · exact (hys.1 x hx).antisymm (hxs.1 y hy)
      have hfirst : x = y := by
        have hfilter := h (mnemonic x)
        rw [List.filter_cons, if_pos (beq_self_eq_true _), List.filter_cons,
          if_pos (beq_iff_eq.2 hsame)] at hfilter
        exact (List.cons.inj hfilter).1
      subst hfirst
      have htail (c : Char) : (xs.filter fun a => mnemonic a == c) =
          ys.filter fun a => mnemonic a == c := by
        have hfilter := h c
        rw [List.filter_cons, List.filter_cons] at hfilter
        by_cases hc : (mnemonic x == c) = true
        · rw [if_pos hc, if_pos hc] at hfilter
          exact (List.cons.inj hfilter).2
        · rwa [if_neg hc, if_neg hc] at hfilter
      rw [ih hxs.2 hys.2 htail (mem_iff_of_filter_eq htail)]

/-- No items are in order. -/
theorem arranged_nil {α : Type} (mnemonic : α → Char) : Arranged mnemonic [] [] :=
  ⟨.refl [], .nil, fun _ => rfl⟩

/-- Sorting by mnemonics arranges the items. -/
theorem sort_arranged {α : Type} (mnemonic : α → Char) (items : List α) :
    Arranged mnemonic items (sort mnemonic items) := by
  have htrans (a b c : α) : before (mnemonic a) (mnemonic b) = true →
      before (mnemonic b) (mnemonic c) = true → before (mnemonic a) (mnemonic c) = true :=
    before_trans
  have htotal (a b : α) := before_total (mnemonic a) (mnemonic b)
  have hperm : (sort mnemonic items).Perm items := List.mergeSort_perm _ _
  refine ⟨hperm, ?_, ?_⟩
  · exact (List.pairwise_mergeSort htrans htotal items).imp before_iff.1
  · intro c
    -- The items of one mnemonic are in order already, so the sort keeps them as a sublist.
    have hsub : (items.filter fun a => mnemonic a == c).Sublist (sort mnemonic items) := by
      apply List.sublist_mergeSort htrans htotal _ List.filter_sublist
      rw [List.pairwise_filter]
      refine List.pairwise_of_forall fun a b ha hb => ?_
      rw [beq_iff_eq] at ha hb
      rw [ha, hb, before_self]
    have hsub' := hsub.filter fun a => mnemonic a == c
    rw [List.filter_filter] at hsub'
    simp only [Bool.and_self] at hsub'
    refine (hsub'.eq_of_length ?_).symm
    exact ((hperm.filter _).length_eq).symm

/-- Sorting leaves no items as they are. -/
@[simp] theorem sort_nil {α : Type} (mnemonic : α → Char) : sort mnemonic [] = [] :=
  List.mergeSort_nil

/-- Sorting puts a first item in front of the first of the others that it may stand before. -/
theorem sort_cons {α : Type} (mnemonic : α → Char) (a : α) (items : List α) :
    sort mnemonic (a :: items) =
      (sort mnemonic items).takeWhile (fun b => !before (mnemonic a) (mnemonic b)) ++
        a :: (sort mnemonic items).dropWhile fun b => !before (mnemonic a) (mnemonic b) := by
  obtain ⟨front, back, hcons, hitems, hfront⟩ := List.mergeSort_cons
    (fun a b c => @before_trans (mnemonic a) (mnemonic b) (mnemonic c))
    (fun a b => before_total (mnemonic a) (mnemonic b)) a items
  have hback : ∀ b ∈ back, ¬ (!before (mnemonic a) (mnemonic b)) = true := by
    have hordered := (sort_arranged mnemonic (a :: items)).ordered
    rw [sort, hcons, List.pairwise_append, List.pairwise_cons] at hordered
    intro b hb
    rw [before_iff.2 (hordered.2.1.1 b hb)]
    exact Bool.false_ne_true
  rw [sort, sort, hcons, hitems, List.takeWhile_append_of_pos hfront,
    List.dropWhile_append_of_pos hfront]
  cases back with
  | nil => rw [List.takeWhile_nil, List.dropWhile_nil, List.append_nil]
  | cons b back =>
    have hb := hback b List.mem_cons_self
    rw [List.takeWhile_cons, if_neg hb, List.dropWhile_cons, if_neg hb, List.append_nil]

end LeaderKey.Mnemonic
