import LeaderKey.Number.Numeral

/-!
# Binary floating point

The 64-bit pattern of the double that lies nearest to a numeral; halfway between two doubles it is
the one with the even pattern. All arithmetic is exact, on natural numbers. `roundDiv_near` and
`even_roundDiv` are the law of the rounding.
-/

namespace LeaderKey.Binary64

/-- The natural number nearest to `n / d`; halfway between two, the even one. -/
def roundDiv (n d : Nat) : Nat :=
  let q := n / d
  let r := n % d
  if 2 * r < d ∨ (2 * r = d ∧ q % 2 = 0) then q else q + 1

/-- A rounded quotient is at most half a unit away. -/
theorem roundDiv_near (n : Nat) {d : Nat} (hd : 0 < d) :
    2 * n ≤ (2 * roundDiv n d + 1) * d ∧ 2 * (roundDiv n d * d) ≤ 2 * n + d := by
  have hn : d * (n / d) + n % d = n := Nat.div_add_mod n d
  have hq : roundDiv n d = if 2 * (n % d) < d ∨ (2 * (n % d) = d ∧ n / d % 2 = 0) then n / d
    else n / d + 1 := rfl
  generalize n / d = q at *
  have hcomm : q * d = d * q := Nat.mul_comm q d
  have hr : n % d < d := Nat.mod_lt n hd
  rw [hq]
  split
  · constructor
    · rw [Nat.add_mul, Nat.mul_assoc, hcomm]; omega
    · rw [hcomm]; omega
  · constructor
    · rw [Nat.add_mul, Nat.mul_assoc, Nat.add_mul, hcomm]; omega
    · rw [Nat.add_mul, hcomm]; omega

/-- A quotient that is halfway between two natural numbers is rounded to the even one. -/
theorem even_roundDiv {n d : Nat} (h : 2 * (n % d) = d) : roundDiv n d % 2 = 0 := by
  have hq : roundDiv n d = if 2 * (n % d) < d ∨ (2 * (n % d) = d ∧ n / d % 2 = 0) then n / d
    else n / d + 1 := rfl
  rw [hq]
  split
  · omega
  · omega

/-- The pattern of positive infinity. -/
def infinity : Nat := 2047 * Nat.pow 2 52

/-- The pattern of the double nearest to `num / den`, for positive `num` and `den`: with `q` the
exponent of the last place, the pattern is `(q + 1074) · 2 ^ 52` and the number of units of `2 ^ q`
in the quotient. -/
def ofRatio (num den : Nat) : Nat :=
  let k : Int := (num.log2 : Int) - den.log2
  let low := num * Nat.pow 2 (-k).toNat < den * Nat.pow 2 k.toNat
  let q : Int := max ((if low then k - 1 else k) - 52) (-1074)
  let units := roundDiv (num * Nat.pow 2 (-q).toNat) (den * Nat.pow 2 q.toNat)
  min ((q + 1074).toNat * Nat.pow 2 52 + units) infinity

/-- The pattern of the double nearest to `mantissa · 10 ^ exponent`. From `10 ^ 310` on that is
infinity, and below `10 ^ (-330)` it is zero. -/
def ofDecimal (mantissa : Nat) (exponent : Int) : Nat :=
  if mantissa = 0 then 0
  else if 310 ≤ exponent then infinity
  else if exponent + (mantissa.log2 + 1) ≤ -330 then 0
  else ofRatio (mantissa * Nat.pow 10 exponent.toNat) (Nat.pow 10 (-exponent).toNat)

/-- The pattern with its sign bit. -/
def withSign (negative : Bool) (pattern : Nat) : Nat :=
  if negative then Nat.pow 2 63 + pattern else pattern

/-- The pattern of a numeral. -/
def ofNumeral : Numeral → Nat
  | .finite negative mantissa exponent => withSign negative (ofDecimal mantissa exponent)
  | .infinite negative => withSign negative infinity
  | .notANumber negative => withSign negative (infinity + Nat.pow 2 51)

end LeaderKey.Binary64
