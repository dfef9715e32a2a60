import Reshape.Number.Binary
import Reshape.Text.Numeral
/-!
# Numbers of a document

A number is an integer or a finite float, and the two are told apart: `1` is not `1.0`. Readers
keep integers within `-2^63 ≤ n < 2^64`.
-/
namespace Reshape

inductive Number where
  | int (value : Int)
  | float (value : Float)
  deriving Inhabited, Repr

namespace Number

/-- Floats compare by value, so the two zeros are equal. -/
def beq : Number → Number → Bool
  | .int a, .int b => a == b
  | .float a, .float b => a == b
  | _, _ => false

instance : BEq Number := ⟨beq⟩

/-- Integers that a number can be. -/
def inRange (n : Int) : Bool := Text.int64Min ≤ n && n < Text.wordSize

/-- A float, if it is finite. -/
def ofFloat? (x : Float) : Option Number :=
  if x.isFinite then some (.float x) else none

/-- The value as a float; integers round to the nearest one, ties to even. -/
def toFloat : Number → Float
  | .int n => Float.ofInt n
  | .float x => x

/-- The value of an integer that fits a signed word. -/
def toInt64? : Number → Option Int
  | .int n => if Text.inInt64 n then some n else none
  | .float _ => none

/-- The value of an integer that fits an unsigned word. -/
def toWord? : Number → Option Nat
  | .int n => if 0 ≤ n && n < Text.wordSize then some n.toNat else none
  | .float _ => none

end Number
end Reshape
