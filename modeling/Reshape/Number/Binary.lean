/-!
# The value of a binary float

A finite float is a mantissa times a power of two, up to sign. Cutting off the fraction and
rounding a fraction to a float work on these parts.
-/
namespace Reshape.Number

/-- The parts of a finite float: its magnitude is `mantissa * 2 ^ exponent`. -/
structure Binary where
  negative : Bool
  mantissa : Nat
  exponent : Int
  deriving Repr, DecidableEq

/-- The least mantissa of a float that is not too small: its 52 lower bits are stored. -/
def leastMantissa : Nat := 0x10000000000000

/-- The bit that stores the sign. -/
def signBit : Nat := 0x8000000000000000

/-- The parts of a finite float; the exponent is that of the last place. -/
def Binary.ofFloat (x : Float) : Binary :=
  let bits := x.toBits.toNat
  let biased : Nat := bits / leastMantissa % 2048
  let fraction : Nat := bits % leastMantissa
  let negative := signBit ≤ bits
  if biased = 0 then ⟨negative, fraction, -1074⟩
  else ⟨negative, leastMantissa + fraction, (biased : Int) - 1075⟩

/-- The integer next to the value toward zero. -/
def Binary.truncate (b : Binary) : Int :=
  let magnitude : Nat :=
    if 0 ≤ b.exponent then b.mantissa * Nat.pow 2 b.exponent.toNat
    else b.mantissa / Nat.pow 2 (-b.exponent).toNat
  if b.negative then -(magnitude : Int) else magnitude

/-- Cut off the fraction of a float; what lies outside `[lo, hi]` becomes the nearer end, and a
float that is not a number becomes zero. -/
def truncateWithin (lo hi : Int) (x : Float) : Int :=
  if x.isNaN then 0
  else if x.isInf then (if x < 0 then lo else hi)
  else max lo (min hi (Binary.ofFloat x).truncate)

/-- The least exponent of a last place. -/
def leastExponent : Int := -1074

/-- A quotient rounded to the nearest integer, ties to even. -/
def roundedQuotient (num den : Nat) : Nat :=
  let whole := num / den
  let rest := 2 * (num % den)
  if den < rest || (rest == den && whole % 2 == 1) then whole + 1 else whole

/-- The fraction `num / den` in units of `2 ^ exponent`, as a numerator and a denominator. -/
def inUnits (num den : Nat) (exponent : Int) : Nat × Nat :=
  (num * Nat.pow 2 (-exponent).toNat, den * Nat.pow 2 exponent.toNat)

/-- The exponent of the last place of the positive fraction `num / den`, so that it has 53 binary
digits before that place, unless it is too small. -/
def lastPlace (num den : Nat) : Int :=
  let low := (num.log2 : Int) - den.log2 - 53
  let (n, d) := inUnits num den low
  max leastExponent (if 2 * leastMantissa * d ≤ n then low + 1 else low)

/-- The bits of a float that is too large. -/
def infinityBits : Nat := 2047 * leastMantissa

/-- The bits of the float nearest to the positive fraction `num / den`, ties to even. The exponent
stands before the mantissa, so rounding up to a power of two carries over into it. -/
def nearestBits (num den : Nat) : Nat :=
  let e := lastPlace num den
  let (n, d) := inUnits num den e
  let mantissa := roundedQuotient n d
  min infinityBits ((e - leastExponent).toNat * leastMantissa + mantissa)

/-- The float nearest to the positive fraction `num / den`. -/
def nearestFloat (num den : Nat) : Float := Float.ofBits (UInt64.ofNat (nearestBits num den))

end Reshape.Number
