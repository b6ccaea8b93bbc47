import LeaderKey.Number.Binary64
import LeaderKey.Value

/-!
# Reading values out of a tree

A value that must be there, and must be of some kind, is read with the dotted path that names it, so
that a failure can say where it is. `null` counts as absent.
-/

namespace LeaderKey

/-- Why a value could not be read. -/
inductive AccessError where
  /-- There is nothing at the path, or `null`. -/
  | missing (path : String)
  /-- What is at the path is not of the kind expected there. -/
  | wrongKind (path : String) (expected found : Kind)
  deriving DecidableEq, Repr

/-- The wording of an access error. -/
def AccessError.message : AccessError → String
  | .missing path => s!"No configuration setting found for key '{path}'"
  | .wrongKind path expected found =>
    s!"'{path}' has type {found.name} rather than {expected.name}"

namespace Value

/-- The bit pattern of the double that a number denotes. -/
def binary64? : Value → Option Nat
  | .number spelling => (Numeral.parse? spelling.toList).map Binary64.ofNumeral
  | _ => none

/-- A value that is there and not `null`. -/
def present? (v : Option Value) : Option Value := v.filter (!·.isNull)

/-- Reads a value that must be there. -/
def require (v : Option Value) (path : String) : Except AccessError Value :=
  match present? v with
  | some v => .ok v
  | none => .error (.missing path)

/-- Reads a value that must be a scalar, as text. -/
def requireText (v : Option Value) (path : String) : Except AccessError String :=
  match present? v with
  | none => .error (.missing path)
  | some v =>
    match v.text? with
    | some text => .ok text
    | none => .error (.wrongKind path .string v.kind)

/-- Reads a value that must be an object. -/
def requireObject (v : Option Value) (path : String) : Except AccessError Object :=
  match present? v with
  | none => .error (.missing path)
  | some v =>
    match v.object? with
    | some entries => .ok entries
    | none => .error (.wrongKind path .object v.kind)

end Value

end LeaderKey
