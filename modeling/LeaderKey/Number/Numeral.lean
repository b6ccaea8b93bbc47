/-!
# Numerals

A numeral is an optional sign and then digits, a point among or beside them, and an optional
exponent (`1`, `1.`, `.5`, `-2.5e-3`), or the word `inf`, `infinity` or `nan` in any case.
`Numeral.parse?` reads exactly these; a config text calls a bare word a number if it also begins
with a digit, after at most a minus sign (`isNumber`).
-/

namespace LeaderKey

/-- What a numeral denotes: a number `± mantissa · 10 ^ exponent`, or a special value. -/
inductive Numeral where
  /-- The number `mantissa · 10 ^ exponent`, negated if `negative`. -/
  | finite (negative : Bool) (mantissa : Nat) (exponent : Int)
  /-- Infinity, with its sign. -/
  | infinite (negative : Bool)
  /-- Not a number, with its sign. -/
  | notANumber (negative : Bool)
  deriving DecidableEq, Repr

namespace Numeral

/-- The digits at the front of a text. -/
def digits (s : List Char) : List Char := s.takeWhile Char.isDigit

/-- The text after the digits at its front. -/
def afterDigits (s : List Char) : List Char := s.dropWhile Char.isDigit

/-- The value of a digit. -/
def digitValue (c : Char) : Nat := c.toNat - '0'.toNat

/-- The natural number that decimal digits spell. -/
def natOf (ds : List Char) : Nat := ds.foldl (fun n d => 10 * n + digitValue d) 0

/-- Exponents stop growing here, far beyond every representable number. -/
def exponentCap : Nat := 0x10000

/-- The size of a written exponent; once it has reached the cap, further digits do not count. -/
def exponentOf (ds : List Char) : Nat :=
  ds.foldl (fun n d => if n < exponentCap then 10 * n + digitValue d else n) 0

/-- A sign at the front of a text, and the text after it. -/
def sign : List Char → Bool × List Char
  | '-' :: rest => (true, rest)
  | '+' :: rest => (false, rest)
  | rest => (false, rest)

/-- Reads what stands after the mantissa of a numeral: nothing, or an exponent. -/
def exponent? : List Char → Option Int
  | [] => some 0
  | e :: rest =>
    if e = 'e' ∨ e = 'E' then
      let (negative, rest) := sign rest
      if digits rest ≠ [] ∧ afterDigits rest = [] then
        let size := exponentOf rest
        some (if negative then -size else size)
      else none
    else none

/-- Reads an unsigned number. -/
def magnitude? (s : List Char) : Option (Nat × Int) :=
  let whole := digits s
  let (fraction, rest) := match afterDigits s with
    | '.' :: rest => (digits rest, afterDigits rest)
    | rest => ([], rest)
  if whole = [] ∧ fraction = [] then none
  else (exponent? rest).map fun e => (natOf (whole ++ fraction), e - fraction.length)

/-- Reads a numeral. -/
def parse? (s : List Char) : Option Numeral :=
  let (negative, rest) := sign s
  match magnitude? rest with
  | some (mantissa, exponent) => some (.finite negative mantissa exponent)
  | none =>
    let word := rest.map Char.toLower
    if word = "inf".toList ∨ word = "infinity".toList then some (.infinite negative)
    else if word = "nan".toList then some (.notANumber negative)
    else none

/-- Whether a bare word of a config text is a number. -/
def isNumber (word : List Char) : Bool :=
  let unsigned := match word with
    | '-' :: rest => rest
    | rest => rest
  unsigned.head?.any Char.isDigit && (parse? word).isSome

end Numeral

end LeaderKey
