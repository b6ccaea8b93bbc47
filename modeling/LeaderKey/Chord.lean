import LeaderKey.Text.Case

/-!
# Key chords

A key chord is what a host receives when a key is pressed: the code of the key and the modifiers
that are held. A chord also keeps the character it stands for, to show it; two chords are equal
(`==`) if their codes and modifiers are, whatever they show.
-/

namespace LeaderKey

/-- The keys that modify another key. -/
inductive Modifier where
  | super
  | ctrl
  | shift
  | alt
  deriving DecidableEq, Repr, Hashable

namespace Modifier

/-- All modifiers, in the order in which a chord lists them. -/
def all : List Modifier := [.super, .ctrl, .shift, .alt]

/-- The place of a modifier in that order. -/
def rank : Modifier → Nat
  | .super => 0
  | .ctrl => 1
  | .shift => 2
  | .alt => 3

/-- The bit of a modifier in a mask. -/
def mask : Modifier → UInt32
  | .shift => 0x40
  | .ctrl => 0x80
  | .super => 0x100
  | .alt => 0x200

/-- The name of a modifier. -/
def name : Modifier → String
  | .super => "Super"
  | .ctrl => "Ctrl"
  | .shift => "Shift"
  | .alt => "Alt"

/-- The name of a modifier as chords show it. -/
def label : Modifier → String
  | .super => "SUPER"
  | .ctrl => "CTRL"
  | .shift => "SHIFT"
  | .alt => "ALT"

/-- A modifier is known by its place. -/
theorem rank_inj {a b : Modifier} : a.rank = b.rank ↔ a = b := by
  cases a <;> cases b <;> decide

/-- The modifiers of a list in order, with equal ones side by side. -/
def sort (ms : List Modifier) : List Modifier := ms.mergeSort fun a b => a.rank ≤ b.rank

/-- A list without the modifiers that repeat the one right before them. -/
def dropRepeats : List Modifier → List Modifier
  | [] => []
  | [m] => [m]
  | a :: b :: rest => if a = b then dropRepeats (b :: rest) else a :: dropRepeats (b :: rest)

/-- The modifiers that occur in a list, in order and once each. -/
def normalize (ms : List Modifier) : List Modifier := dropRepeats (sort ms)

/-- Sorted modifiers stand in order. -/
theorem pairwise_sort (ms : List Modifier) : (sort ms).Pairwise fun a b => a.rank ≤ b.rank := by
  have htrans : ∀ a b c : Modifier, decide (a.rank ≤ b.rank) = true →
      decide (b.rank ≤ c.rank) = true → decide (a.rank ≤ c.rank) = true := by
    intro a b c hab hbc
    exact decide_eq_true (Nat.le_trans (of_decide_eq_true hab) (of_decide_eq_true hbc))
  have htotal : ∀ a b : Modifier, (decide (a.rank ≤ b.rank) || decide (b.rank ≤ a.rank)) = true := by
    intro a b
    simpa using Nat.le_total a.rank b.rank
  exact (List.pairwise_mergeSort htrans htotal ms).imp of_decide_eq_true

/-- Dropping repetitions keeps the set of modifiers. -/
@[simp] theorem mem_dropRepeats {m : Modifier} {ms : List Modifier} :
    m ∈ dropRepeats ms ↔ m ∈ ms := by
  fun_induction dropRepeats ms with
  | case1 => rfl
  | case2 => rfl
  | case3 b rest ih => simp [ih]
  | case4 a b rest _ ih => simp [ih]

/-- Where equal modifiers stand side by side, none is left twice. -/
theorem pairwise_dropRepeats {ms : List Modifier} (h : ms.Pairwise fun a b => a.rank ≤ b.rank) :
    (dropRepeats ms).Pairwise fun a b => a.rank < b.rank := by
  fun_induction dropRepeats ms with
  | case1 => exact .nil
  | case2 => exact List.pairwise_singleton _ _
  | case3 b rest ih => exact ih h.of_cons
  | case4 a b rest hne ih =>
    refine .cons (fun m hm => ?_) (ih h.of_cons)
    -- The next modifier is a later one, and what follows it comes no earlier.
    have hab : a.rank < b.rank :=
      Nat.lt_of_le_of_ne (List.rel_of_pairwise_cons h List.mem_cons_self) (mt rank_inj.1 hne)
    rcases List.mem_cons.1 (mem_dropRepeats.1 hm) with rfl | hrest
    · exact hab
    · exact Nat.lt_of_lt_of_le hab (List.rel_of_pairwise_cons h.of_cons hrest)

/-- Normalizing keeps the set of modifiers. -/
@[simp] theorem mem_normalize {m : Modifier} {ms : List Modifier} :
    m ∈ normalize ms ↔ m ∈ ms := by
  rw [normalize, mem_dropRepeats, sort, (List.mergeSort_perm ms _).mem_iff]

/-- Normalized modifiers stand in order, and none twice. -/
theorem pairwise_normalize (ms : List Modifier) :
    (normalize ms).Pairwise fun a b => a.rank < b.rank :=
  pairwise_dropRepeats (pairwise_sort ms)

end Modifier

/-- The code of a key. -/
structure KeyCode where
  /-- The number of the code. -/
  val : UInt32
  deriving DecidableEq, Repr, Hashable

namespace KeyCode

/-- Codes from here on stand for keys without a code of their own: the base plus the code point of
the key's lower-case character. -/
def extendedBase : UInt32 := 0x01000000

/-- Whether the code is of that kind. -/
def isExtended (code : KeyCode) : Bool := extendedBase ≤ code.val

/-- A code as text, in upper-case hexadecimal. -/
def toText (code : KeyCode) : String :=
  "0x" ++ String.ofList ((Nat.toDigits 16 code.val.toNat).map Char.toUpper)

/-- The characters whose keys have the character's own code point as code. -/
def plain : List Char :=
  ['\x08', '\t', '\n', '\x1b', ' ', ',', '-', '.', '/', ';', '=', '[', '\\', ']', '\x7f']

/-- The characters whose keys have a code from the table of punctuation keys. -/
def punctuation : List (Char × UInt32) :=
  [('\'', 0xDE), ('\x60', 0xC0), ('"', 0x98), ('&', 0x96), ('*', 0x97), ('<', 0x99), ('>', 0xA0),
   ('{', 0xA1), ('}', 0xA2), ('@', 0x200), (':', 0x201), ('^', 0x202), ('$', 0x203), ('€', 0x204),
   ('!', 0x205), ('(', 0x207), ('#', 0x208), ('+', 0x209), (')', 0x20A), ('_', 0x20B), ('¡', 0x20C)]

/-- The code of the key that types `c`; a letter has one code in both cases. -/
def ofChar (c : Char) : KeyCode :=
  if 'a' ≤ c ∧ c ≤ 'z' then ⟨c.val - 0x20⟩
  else if ('A' ≤ c ∧ c ≤ 'Z') ∨ ('0' ≤ c ∧ c ≤ '9') ∨ c ∈ plain then ⟨c.val⟩
  else
    match punctuation.lookup c with
    | some code => ⟨code⟩
    | none => ⟨extendedBase + (Text.lower c).val⟩

end KeyCode

/-- A key press. -/
structure KeyChord where
  /-- The modifiers that are held, in order and once each. -/
  modifiers : List Modifier
  /-- The code of the key. -/
  code : KeyCode
  /-- The character that the chord shows. -/
  char : Char
  deriving Repr

namespace KeyChord

/-- The chord of a key with any list of modifiers. -/
def of (modifiers : List Modifier) (code : KeyCode) (char : Char) : KeyChord :=
  ⟨Modifier.normalize modifiers, code, char⟩

/-- What makes a chord: its code and its modifiers. -/
def identity (chord : KeyChord) : KeyCode × List Modifier := (chord.code, chord.modifiers)

instance : BEq KeyChord := ⟨fun a b => a.identity == b.identity⟩

/-- Chords are equal if their codes and modifiers are. -/
theorem beq_iff {a b : KeyChord} :
    (a == b) = true ↔ a.code = b.code ∧ a.modifiers = b.modifiers := by
  change (a.identity == b.identity) = true ↔ _
  simp [identity]

/-- A hasher: each piece of data that is fed to it changes its state. -/
structure Hasher (σ : Type) where
  /-- A number of one machine word. -/
  word : σ → UInt32 → σ
  /-- The length of a list, which goes before its items. -/
  length : σ → Nat → σ
  /-- One of several alternatives, by its place among them. -/
  alternative : σ → Nat → σ

/-- The state of a hasher after a chord has been fed to it: the code, then the modifiers. -/
def feed {σ : Type} (hasher : Hasher σ) (start : σ) (chord : KeyChord) : σ :=
  chord.modifiers.foldl (fun state m => hasher.alternative state m.rank)
    (hasher.length (hasher.word start chord.code.val) chord.modifiers.length)

/-- Hashing by a hasher: it is fed the chord, and its last state is made a number. -/
abbrev hashable {σ : Type} (hasher : Hasher σ) (start : σ) (finish : σ → UInt64) :
    Hashable KeyChord :=
  ⟨fun chord => finish (chord.feed hasher start)⟩

/-- Equal chords are fed alike. -/
theorem feed_eq_of_beq {a b : KeyChord} (h : (a == b) = true) {σ : Type} (hasher : Hasher σ)
    (start : σ) : a.feed hasher start = b.feed hasher start := by
  obtain ⟨hcode, hmodifiers⟩ := beq_iff.1 h
  rw [feed, feed, hcode, hmodifiers]

/-- Whether Shift is held. -/
def hasShift (chord : KeyChord) : Bool := chord.modifiers.contains .shift

/-- The modifiers as bits. -/
def mask (chord : KeyChord) : UInt32 := chord.modifiers.foldl (fun mask m => mask ||| m.mask) 0

/-- A chord as text: its modifiers and the character in upper case, with plus signs between. -/
def toText (chord : KeyChord) : String :=
  "+".intercalate (chord.modifiers.map Modifier.label ++ [String.ofList (Text.upper chord.char)])

/-- The chord that types `c`: an upper-case letter needs Shift, everything else is pressed bare. -/
def ofChar (c : Char) : KeyChord :=
  .of (if Text.isUppercase c then [.shift] else []) (.ofChar c) c

end KeyChord

/-- Where the chords of a binding tree come from. -/
abbrev ChordSource := Char → KeyChord

end LeaderKey
