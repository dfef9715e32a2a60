import Reshape.Number.Basic
/-!
# Reading decimals

Two readers turn a decimal into a float. One rounds the exact value once. The other scales the
leading digits that fit a machine word by powers of ten in float arithmetic, as the documents'
own reader does, so its last place can differ.
-/
namespace Reshape.Number

/-- A decimal beyond these exponents of its leading digit is infinite or zero as a float. -/
def farExponent : Int := 400

/-- The nearest float to `digits * 10 ^ exponent`, infinite if it is too large. -/
def nearest (digits : Nat) (exponent : Int) : Float :=
  if digits = 0 then 0
  else
    let leading := exponent + (Nat.toDigits 10 digits).length
    if leading > farExponent then 1 / 0
    else if leading < -farExponent then 0
    else nearestFloat (digits * Nat.pow 10 exponent.toNat) (Nat.pow 10 (-exponent).toNat)

/-- An exponent part `e`, `E`, an optional sign and digits; no text at all is the exponent 0. -/
def exponentPart? : List Char → Option Int
  | [] => some 0
  | c :: rest =>
    if c == 'e' || c == 'E' then
      match rest with
      | '-' :: ds => (Text.digits? ds).map fun n => -(n : Int)
      | '+' :: ds => (Text.digits? ds).map Int.ofNat
      | ds => (Text.digits? ds).map Int.ofNat
    else none

/-- An unsigned decimal: digits on at least one side of an optional point, then an optional
exponent. -/
def unsignedDecimal? (text : List Char) : Option Float :=
  let (whole, rest) := text.span Text.isDigit
  let (fraction, rest) := match rest with
    | '.' :: rest => rest.span Text.isDigit
    | _ => ([], rest)
  if whole.isEmpty && fraction.isEmpty then none
  else
    (exponentPart? rest).map fun e =>
      nearest (Text.digitsValue (whole ++ fraction)) (e - fraction.length)

def asciiLower (c : Char) : Char :=
  if 'A' ≤ c && c ≤ 'Z' then Char.ofNat (c.toNat + 32) else c

/-- A decimal or one of the words for infinity and for what is not a number, in any case. -/
def unsignedFloat? (text : List Char) : Option Float :=
  let word := String.ofList (text.map asciiLower)
  if word == "inf" || word == "infinity" then some (1 / 0)
  else if word == "nan" then some (0 / 0)
  else unsignedDecimal? text

/-- A float with an optional sign. -/
def float? (text : List Char) : Option Float :=
  match text with
  | '-' :: rest => (unsignedFloat? rest).map fun x => -x
  | '+' :: rest => unsignedFloat? rest
  | cs => unsignedFloat? cs

/-- The greatest power of ten that is a float. -/
def greatestPower : Nat := 308

def powerOfTen (n : Nat) : Float := nearestFloat (Nat.pow 10 n) 1

/-- Divide by `10 ^ n`, by the greatest power first while more than one division is needed. -/
def scaleDown (x : Float) (n : Nat) : Float :=
  if _small : n ≤ greatestPower then x / powerOfTen n
  else if x == 0 then x
  else scaleDown (x / powerOfTen greatestPower) (n - greatestPower)
termination_by n
decreasing_by simp [greatestPower] at *; omega

/-- A machine word scaled by a power of ten; nothing if that is too large for a float. -/
def scale? (significand : Nat) (exponent : Int) : Option Float :=
  let x := Float.ofNat significand
  if exponent < 0 then some (scaleDown x exponent.natAbs)
  else if exponent.toNat ≤ greatestPower then
    let y := x * powerOfTen exponent.toNat
    if y.isInf then none else some y
  else if significand = 0 then some x
  else none

end Reshape.Number
