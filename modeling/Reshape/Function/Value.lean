import Reshape.Json.Text
import Reshape.Number.Decimal
import Reshape.Text.Blank
/-!
# Values as arguments

How functions read their arguments: numbers may be given as numeric text with blanks around it,
and where all values count, lists are taken apart.
-/
namespace Reshape.Function

/-- Lists give their elements, and nulls are dropped. -/
def flatten (args : List Json) : List Json :=
  args.flatMap fun
    | .arr elements => elements.filter fun v => !v.isNull
    | .null => []
    | v => [v]

def float? : Json → Option Float
  | .num n => some n.toFloat
  | .str text => Number.float? (Text.trim text.toList)
  | _ => none

/-- A float without its fraction, kept within the signed word. -/
def truncated (x : Float) : Int := Number.truncateWithin Text.int64Min Text.int64Max x

/-- The integer of a number or of numeric text; floats lose their fraction. -/
def int64? : Json → Option Int
  | .num n => n.toInt64?.or (some (truncated n.toFloat))
  | .str text =>
    let trimmed := Text.trim text.toList
    (Text.int64? (String.ofList trimmed)).or ((Number.float? trimmed).map truncated)
  | _ => none

/-- An integer that is not negative. -/
def index? (v : Json) : Option Nat :=
  (int64? v).bind fun n => if 0 ≤ n then some n.toNat else none

/-- A float as a value, if it is finite. -/
def ofFloat? (x : Float) : Option Json := (Number.ofFloat? x).map .num

/-- An integer as a value, if it fits the signed word. -/
def ofInt64? (n : Int) : Option Json := if Text.inInt64 n then some (.ofInt n) else none

/-- Floats added up from the left. The sum of none is negative zero, which adds nothing. -/
def sum? (values : List Json) : Option Float :=
  (values.mapM float?).map fun xs => xs.foldl (· + ·) (-0.0)

def product? (values : List Json) : Option Float :=
  (values.mapM float?).map fun xs => xs.foldl (· * ·) 1.0

end Reshape.Function
