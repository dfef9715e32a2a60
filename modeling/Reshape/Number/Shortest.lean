import Reshape.Number.Binary
/-!
# The shortest decimal that reads back

A finite float stands for every real that rounds to it. Among the decimals in that interval the
text of a float uses one with the fewest digits, and of these the nearest to the exact value.
Everything is exact arithmetic on naturals.
-/
namespace Reshape.Number

/-- A decimal: `digits * 10 ^ exponent`. -/
structure Decimal where
  digits : Nat
  exponent : Int
  deriving Repr, DecidableEq

namespace Shortest

/-- The reals that round to one positive float, in quarters of its last place: the value, the two
ends of the interval, whether the ends belong to it, and the exponent of the unit. -/
structure Interval where
  value : Nat
  low : Nat
  high : Nat
  closed : Bool
  exponent : Int

/-- The lower end is half as far from a power of two, whose lower neighbour is nearer; the ends
round to an even mantissa. -/
def interval (b : Binary) : Interval :=
  let nearBelow := b.mantissa == leastMantissa && b.exponent > -1074
  { value := 4 * b.mantissa
    low := 4 * b.mantissa - (if nearBelow then 1 else 2)
    high := 4 * b.mantissa + 2
    closed := b.mantissa % 2 == 0
    exponent := b.exponent - 2 }

def digitCount (n : Nat) : Nat := (Nat.toDigits 10 n).length

/-- The exponent of the leading digit of the positive fraction `num / den`. -/
def leadingExponent (num den : Nat) : Int :=
  if den ≤ num then (digitCount (num / den) : Int) - 1
  else
    let above := digitCount (den / num) - 1
    if den ≤ num * Nat.pow 10 above then -(above : Int) else -(above : Int) - 1

/-- The fraction `n * 2 ^ e / 10 ^ k` as a numerator and a denominator. -/
def scaled (n : Nat) (e k : Int) : Nat × Nat :=
  (n * Nat.pow 2 e.toNat * Nat.pow 10 (-k).toNat, Nat.pow 2 (-e).toNat * Nat.pow 10 k.toNat)

/-- The best decimal of the interval whose last digit has place `10 ^ k`, if there is one: the
nearer of the two neighbours of the value, at a tie the even one. -/
def onGrid? (i : Interval) (k : Int) : Option Nat :=
  let (value, den) := scaled i.value i.exponent k
  let (low, _) := scaled i.low i.exponent k
  let (high, _) := scaled i.high i.exponent k
  let inside (d : Nat) : Bool :=
    let x := d * den
    if i.closed then low ≤ x && x ≤ high else low < x && x < high
  let d := value / den
  let below := value - d * den
  let above := (d + 1) * den - value
  match inside d, inside (d + 1) with
  | true, true =>
    if below < above then some d
    else if above < below then some (d + 1)
    else some (if d % 2 == 0 then d else d + 1)
  | true, false => some d
  | false, true => some (d + 1)
  | false, false => none

/-- Try ever finer grids; `count` of them are left. -/
def search (i : Interval) (leading : Int) : (count : Nat) → Decimal
  | 0 =>
    let (num, den) := scaled i.value i.exponent (leading - 17)
    ⟨num / den, leading - 17⟩
  | count + 1 =>
    let k := leading - (16 - count : Nat)
    match onGrid? i k with
    | some d => ⟨d, k⟩
    | none => search i leading count

end Shortest

/-- The shortest decimal that reads back as a positive float. Seventeen digits always suffice. -/
def shortest (b : Binary) : Decimal :=
  let i := Shortest.interval b
  let (num, den) := Shortest.scaled i.value i.exponent 0
  Shortest.search i (Shortest.leadingExponent num den) 17

end Reshape.Number
