import LeaderKey.Text.Case

/-!
# Mnemonics

A mnemonic is the character that selects a binding among its siblings. Siblings are shown in the
order of their mnemonics: by lower case, and within one lower case by descending code point, which
puts `a` before `A`.
-/

namespace LeaderKey.Mnemonic

/-- The order of mnemonics. -/
def order (a b : Char) : Ordering :=
  (compare (Text.lower a).toNat (Text.lower b).toNat).then (compare b.toNat a.toNat)

/-- Whether `a` may stand before `b`. -/
def before (a b : Char) : Bool := order a b != .gt

/-- Sorts by mnemonic; what has the same mnemonic keeps its order. -/
def sort {α : Type} (mnemonic : α → Char) (items : List α) : List α :=
  items.mergeSort fun a b => before (mnemonic a) (mnemonic b)

end LeaderKey.Mnemonic
