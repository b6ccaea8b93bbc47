import LeaderKey.Chord
import Mathlib.Data.Finset.Card
import Mathlib.Data.List.Sort
import Std.Data.HashSet.Lemmas

/-!
# Chords are told apart by their code and their set of modifiers

A chord keeps its modifiers sorted and without repetitions, so two lists of modifiers make the same
chord exactly if the same modifiers occur in them. The bits of the mask say the same, and so does what
a hasher is fed with: `KeyChord.equality_by_modifier_set` puts the readings side by side, and counts
the chords that a hash set keeps.
-/

namespace LeaderKey

/-! ## Normalized modifiers -/

namespace Modifier

instance : Std.Irrefl fun a b : Modifier => a.rank < b.rank := ⟨fun _ => Nat.lt_irrefl _⟩

instance : Std.Antisymm fun a b : Modifier => a.rank < b.rank :=
  ⟨fun _ _ hab hba => absurd hab (Nat.lt_asymm hba)⟩

/-- Normalized lists are the same exactly if the same modifiers occur. -/
theorem normalize_eq_iff {ms ns : List Modifier} :
    normalize ms = normalize ns ↔ ∀ m, m ∈ ms ↔ m ∈ ns := by
  constructor
  · intro h m
    rw [← mem_normalize, h, mem_normalize]
  · intro h
    have hmem : ∀ m, m ∈ normalize ms ↔ m ∈ normalize ns := by simpa using h
    exact (pairwise_normalize ms).eq_of_mem_iff (pairwise_normalize ns) hmem

/-! ## Masks -/

/-- The place of a modifier's bit in a mask. -/
def bit : Modifier → Nat
  | .shift => 6
  | .ctrl => 7
  | .super => 8
  | .alt => 9

/-- Every modifier has a bit of its own. -/
theorem testBit_mask (m n : Modifier) : m.mask.toNat.testBit n.bit = decide (m = n) := by
  cases m <;> cases n <;> decide

/-- The bits of a mask are those of its modifiers. -/
theorem testBit_foldl_mask (ms : List Modifier) (start : UInt32) (i : Nat) :
    (ms.foldl (fun mask m => mask ||| m.mask) start).toNat.testBit i =
      (start.toNat.testBit i || ms.any fun m => m.mask.toNat.testBit i) := by
  induction ms generalizing start with
  | nil => simp
  | cons m rest ih =>
    rw [List.foldl_cons, ih, UInt32.toNat_or, Nat.testBit_or, List.any_cons, Bool.or_assoc]

end Modifier

namespace KeyChord

open Modifier

/-- The mask has a modifier's bit exactly if the chord has the modifier. -/
theorem testBit_mask_bit (chord : KeyChord) (m : Modifier) :
    chord.mask.toNat.testBit m.bit = decide (m ∈ chord.modifiers) := by
  have hzero : (0 : UInt32).toNat.testBit m.bit = false := Nat.zero_testBit m.bit
  rw [mask, testBit_foldl_mask, hzero, Bool.false_or]
  simp only [testBit_mask]
  rw [Bool.eq_iff_iff, List.any_eq_true, decide_eq_true_eq]
  constructor
  · rintro ⟨n, hn, heq⟩
    rwa [← of_decide_eq_true heq]
  · intro hm
    exact ⟨m, hm, decide_eq_true rfl⟩

/-- Masks are equal exactly if the chords have the same modifiers. -/
theorem mask_eq_iff {a b : KeyChord} :
    a.mask = b.mask ↔ ∀ m, m ∈ a.modifiers ↔ m ∈ b.modifiers := by
  constructor
  · intro h m
    have hbit := testBit_mask_bit a m
    rw [h, testBit_mask_bit b m] at hbit
    simpa using hbit.symm
  · intro h
    refine UInt32.toNat_inj.1 (Nat.eq_of_testBit_eq fun i => ?_)
    rw [mask, mask, testBit_foldl_mask, testBit_foldl_mask]
    congr 1
    rw [Bool.eq_iff_iff, List.any_eq_true, List.any_eq_true]
    simp only [h]

/-! ## Hashing -/

/-- The hasher that writes down what it is fed with. -/
def transcript : Hasher (List (UInt32 ⊕ Nat)) where
  word written w := written ++ [.inl w]
  length written n := written ++ [.inr n]
  alternative written n := written ++ [.inr n]

/-- The transcript of some modifiers. -/
theorem foldl_transcript (ms : List Modifier) (written : List (UInt32 ⊕ Nat)) :
    ms.foldl (fun state m => transcript.alternative state m.rank) written =
      written ++ ms.map fun m => .inr m.rank := by
  induction ms generalizing written with
  | nil => exact (List.append_nil written).symm
  | cons m rest ih =>
    rw [List.foldl_cons, ih]
    exact List.append_assoc written [.inr m.rank] _

/-- The transcript of a chord tells its code and its modifiers. -/
theorem feed_transcript (chord : KeyChord) : chord.feed transcript [] =
    .inl chord.code.val :: .inr chord.modifiers.length ::
      chord.modifiers.map fun m => .inr m.rank :=
  foldl_transcript chord.modifiers _

/-- Chords that feed every hasher alike are equal, as their transcripts are. -/
theorem beq_of_feed_eq {a b : KeyChord}
    (h : ∀ (σ : Type) (hasher : Hasher σ) (start : σ), a.feed hasher start = b.feed hasher start) :
    (a == b) = true := by
  have hwritten := h _ transcript []
  rw [feed_transcript, feed_transcript, List.cons.injEq, Sum.inl.injEq, List.cons.injEq] at hwritten
  obtain ⟨hcode, -, hmodifiers⟩ := hwritten
  have hrank : Function.Injective fun m : Modifier => (Sum.inr m.rank : UInt32 ⊕ Nat) :=
    fun _ _ hmn => rank_inj.1 (Sum.inr.inj hmn)
  exact beq_iff.2 ⟨congrArg KeyCode.mk hcode, hrank.list_map hmodifiers⟩

instance : EquivBEq KeyChord where
  rfl := beq_iff.2 ⟨rfl, rfl⟩
  symm h := beq_iff.2 ⟨(beq_iff.1 h).1.symm, (beq_iff.1 h).2.symm⟩
  trans h h' := beq_iff.2
    ⟨(beq_iff.1 h).1.trans (beq_iff.1 h').1, (beq_iff.1 h).2.trans (beq_iff.1 h').2⟩

/-- The number of chords in a hash set into which the chords of a list are put. -/
def countDistinct {σ : Type} (hasher : Hasher σ) (start : σ) (finish : σ → UInt64)
    (chords : List KeyChord) : Nat :=
  letI := hashable hasher start finish
  (Std.HashSet.ofList chords).size

/-- A hash set counts chords by anything that tells them apart as their equality does. -/
theorem countDistinct_eq_card {σ : Type} (hasher : Hasher σ) (start : σ) (finish : σ → UInt64)
    {α κ : Type} [DecidableEq κ] {chord : α → KeyChord} {key : α → κ}
    (h : ∀ p q, (chord p == chord q) = true ↔ key p = key q) (ps : List α) :
    countDistinct hasher start finish (ps.map chord) = (ps.map key).toFinset.card := by
  let _ : Hashable KeyChord := hashable hasher start finish
  have _ : LawfulHashable KeyChord :=
    ⟨fun a b hab => congrArg finish (feed_eq_of_beq hab hasher start)⟩
  show ((∅ : Std.HashSet KeyChord).insertMany (ps.map chord)).size = _
  -- Chord by chord: the one put in last is there already exactly if its key is.
  induction ps using List.reverseRecOn with
  | nil => rfl
  | append_singleton ps p ih =>
    have hmem : chord p ∈ (∅ : Std.HashSet KeyChord).insertMany (ps.map chord) ↔
        key p ∈ (ps.map key).toFinset := by
      rw [Std.HashSet.mem_insertMany_list, List.contains_iff_exists_mem_beq, List.mem_toFinset,
        List.mem_map]
      constructor
      · rintro (hnone | ⟨c, hc, heq⟩)
        · exact absurd hnone Std.HashSet.not_mem_empty
        · obtain ⟨q, hq, rfl⟩ := List.mem_map.1 hc
          exact ⟨q, hq, ((h p q).1 heq).symm⟩
      · rintro ⟨q, hq, heq⟩
        exact Or.inr ⟨chord q, List.mem_map_of_mem hq, (h p q).2 heq.symm⟩
    have hset : ((ps ++ [p]).map key).toFinset = insert (key p) (ps.map key).toFinset := by
      ext k
      rw [List.mem_toFinset, List.map_append, List.mem_append, Finset.mem_insert,
        List.mem_toFinset, List.map_singleton, List.mem_singleton, or_comm]
    rw [List.map_append, Std.HashSet.insertMany_append, List.map_singleton,
      Std.HashSet.insertMany_list_singleton, Std.HashSet.size_insert, ih, hset]
    by_cases hkey : key p ∈ (ps.map key).toFinset
    · rw [if_pos (hmem.2 hkey), Finset.insert_eq_of_mem hkey]
    · rw [if_neg (fun hin => hkey (hmem.1 hin)), Finset.card_insert_of_notMem hkey]

/-- Two lists of modifiers make the same chord with codes exactly if the codes are equal and the same
modifiers occur, exactly if the codes and the masks are equal, and exactly if every hasher is fed
alike; the characters make no difference. So a hash set keeps as many chords as there are different
pairs of a code and a set of modifiers. The modifiers of a chord stand in order, none twice. -/
theorem equality_by_modifier_set (ms ns : List Modifier) (a b : KeyCode) (x y : Char) :
    ((of ms a x == of ns b y) = true ↔ a = b ∧ ∀ m, m ∈ ms ↔ m ∈ ns) ∧
    ((of ms a x == of ns b y) = true ↔ a = b ∧ (of ms a x).mask = (of ns b y).mask) ∧
    ((of ms a x == of ns b y) = true ↔ ∀ (σ : Type) (hasher : Hasher σ) (start : σ),
      (of ms a x).feed hasher start = (of ns b y).feed hasher start) ∧
    (∀ (σ : Type) (hasher : Hasher σ) (start : σ) (finish : σ → UInt64)
      (presses : List (List Modifier × KeyCode × Char)),
      countDistinct hasher start finish (presses.map fun p => of p.1 p.2.1 p.2.2) =
        (presses.map fun p => (p.2.1, p.1.toFinset)).toFinset.card) ∧
    (of ms a x).modifiers.Pairwise fun m n => m.rank < n.rank := by
  have hequal (ms ns : List Modifier) (a b : KeyCode) (x y : Char) :
      (of ms a x == of ns b y) = true ↔ a = b ∧ ∀ m, m ∈ ms ↔ m ∈ ns :=
    beq_iff.trans (and_congr_right fun _ => normalize_eq_iff)
  have hmask : (of ms a x).mask = (of ns b y).mask ↔ ∀ m, m ∈ ms ↔ m ∈ ns := by
    rw [mask_eq_iff]
    simp only [of, mem_normalize]
  refine ⟨hequal ms ns a b x y, ?_, ⟨fun h _ => feed_eq_of_beq h, beq_of_feed_eq⟩, ?_,
    pairwise_normalize ms⟩
  · rw [hmask]
    exact hequal ms ns a b x y
  · intro σ hasher start finish presses
    refine countDistinct_eq_card hasher start finish (fun p q => ?_) presses
    rw [hequal, Prod.mk.injEq, Finset.ext_iff]
    simp only [List.mem_toFinset]

/-- Another order and a repetition make no difference, and neither does the character. -/
example : (of [.shift, .ctrl, .shift] ⟨0x4B⟩ 'k' == of [.ctrl, .shift] ⟨0x4B⟩ 'K') = true ∧
    (of [.shift, .ctrl, .shift] ⟨0x4B⟩ 'k').mask = 0xC0 := by
  cbv

end KeyChord

end LeaderKey
