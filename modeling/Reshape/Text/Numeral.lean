/-!
# Decimal numerals

A numeral is an optional sign and one or more ASCII digits, leading zeros allowed. Machine words
refuse a numeral that is out of their range.
-/
namespace Reshape.Text

def isDigit (c : Char) : Bool := '0' ≤ c && c ≤ '9'

def digitValue (c : Char) : Nat := c.toNat - '0'.toNat

/-- The number that a run of digits denotes, most significant digit first. -/
def digitsValue (digits : List Char) : Nat :=
  digits.foldl (fun n c => 10 * n + digitValue c) 0

def digits? (text : List Char) : Option Nat :=
  if !text.isEmpty && text.all isDigit then some (digitsValue text) else none

/-- The number of values of an unsigned machine word, which has 64 bits. -/
def wordSize : Nat := 0x10000000000000000

/-- A run of digits that denotes a machine word. -/
def digitsWord? (text : List Char) : Option Nat :=
  (digits? text).filter (· < wordSize)

/-- A numeral of an unsigned machine word: `+` is the only sign. -/
def word? (text : String) : Option Nat :=
  match text.toList with
  | '+' :: rest => digitsWord? rest
  | cs => digitsWord? cs

def int64Min : Int := -0x8000000000000000
def int64Max : Int := 0x7FFFFFFFFFFFFFFF

def inInt64 (n : Int) : Bool := int64Min ≤ n && n ≤ int64Max

/-- A numeral of a signed machine word. -/
def int64? (text : String) : Option Int :=
  let value? : Option Int := match text.toList with
    | '+' :: rest => (digits? rest).map Int.ofNat
    | '-' :: rest => (digits? rest).map fun n => -(n : Int)
    | cs => (digits? cs).map Int.ofNat
  value?.filter inInt64

end Reshape.Text
