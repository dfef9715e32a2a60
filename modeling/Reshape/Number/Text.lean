import Reshape.Number.Basic
import Reshape.Number.Shortest
/-!
# The text of a number

Integers are written in decimal. A float is written with the fewest digits that read back, in
positional form for exponents from -5 to 15 and in scientific form otherwise.
-/
namespace Reshape.Number

/-- The digits without trailing zeros, and how many zeros were dropped. -/
def dropZeros (digits : List Char) : List Char × Nat :=
  let kept := (digits.reverse.dropWhile (· == '0')).reverse
  (kept, digits.length - kept.length)

def zeros (n : Nat) : List Char := List.replicate n '0'

/-- `d.ddd × 10^e` in positional form, always with a point. -/
def positional (digits : List Char) (e : Int) : List Char :=
  if e < 0 then
    '0' :: '.' :: zeros (-e - 1).toNat ++ digits
  else
    let whole := e.toNat + 1
    if digits.length ≤ whole then digits ++ zeros (whole - digits.length) ++ ['.', '0']
    else digits.take whole ++ '.' :: digits.drop whole

/-- `d.ddd × 10^e` in scientific form: the point only where digits follow it, the sign of the
exponent always. -/
def scientific (digits : List Char) (e : Int) : List Char :=
  let significand := match digits with
    | d :: rest@(_ :: _) => d :: '.' :: rest
    | ds => ds
  let sign := if e < 0 then '-' else '+'
  significand ++ 'e' :: sign :: Nat.toDigits 10 e.natAbs

/-- The least and the greatest exponent written in positional form. -/
def positionalExponents : Int × Int := (-5, 15)

def floatText (x : Float) : List Char :=
  let b := Binary.ofFloat x
  let unsigned :=
    if b.mantissa = 0 then ['0', '.', '0']
    else
      let d := shortest b
      let (digits, dropped) := dropZeros (Nat.toDigits 10 d.digits)
      let e := d.exponent + dropped + digits.length - 1
      if positionalExponents.1 ≤ e && e ≤ positionalExponents.2 then positional digits e
      else scientific digits e
  if b.negative then '-' :: unsigned else unsigned

def intText : Int → List Char
  | .ofNat n => Nat.toDigits 10 n
  | .negSucc n => '-' :: Nat.toDigits 10 (n + 1)

def text : Number → List Char
  | .int n => intText n
  | .float x => floatText x

end Reshape.Number
