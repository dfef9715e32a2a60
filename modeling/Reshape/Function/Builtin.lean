import Reshape.Function.Value
import Reshape.Order
import Reshape.Regex.Parse
import Reshape.Text.Case
/-!
# Built-in functions

The functions that modify specs call by name. A function is pure, and has no result for arguments
that it is not made for.
-/
namespace Reshape

/-- A function of any number of arguments. -/
abbrev Function := List Json → Option Json

namespace Function

/-! ## Text -/

def ofText (f : String → String) : Function
  | .str text :: _ => some (.str (f text))
  | _ => none

def concat : Function := fun args =>
  some (.str (String.join ((flatten args).map Json.display)))

/-- The values after the first argument, with that argument between them. -/
def join : Function
  | .str separator :: rest =>
    some (.str (separator.intercalate ((flatten rest).map Json.display)))
  | _ => none

/-- The pieces of a text between the matches of a regular expression. -/
def split : Function
  | .str pattern :: .str text :: _ =>
    (Regex.split? pattern text).map fun parts => .arr (parts.map .str)
  | _ => none

/-- The characters from one position up to another, which is not included. -/
def substring : Function
  | .str text :: start :: stop :: _ => do
    let start ← index? start
    let stop ← index? stop
    if start ≤ stop && stop ≤ text.length then
      some (.str (String.ofList ((text.toList.take stop).drop start)))
    else none
  | _ => none

/-- The greatest width that padding fills up to. -/
def maxWidth : Nat := 10000

/-- The text, and the characters that it lacks to a width. -/
def padding? : List Json → Option (List Char × List Char)
  | .str text :: width :: rest => do
    let width ← index? width
    if width > maxWidth then none
    else
      let fill ← rest.head?.bind Json.string?
      let c ← fill.toList.head?
      some (text.toList, List.replicate (width - text.length) c)
  | _ => none

def leftPad : Function := fun args =>
  (padding? args).map fun (text, missing) => .str (String.ofList (missing ++ text))

def rightPad : Function := fun args =>
  (padding? args).map fun (text, missing) => .str (String.ofList (text ++ missing))

def asText : Function := fun args => args.head?.map fun v => .str v.display

/-! ## Numbers -/

/-- The absolute value. Integers stay integers, as far as there is one. -/
def abs : Function := fun args =>
  args.head?.bind fun v =>
    match v with
    | .num (.int n) => if Text.inInt64 n then ofInt64? n.natAbs else some v
    | v => (float? v).bind fun x => ofFloat? x.abs

/-- The first value whose number is better than that of all before it. -/
def best? (better : Float → Float → Bool) (values : List Json) : Option Json := do
  let numbered ← values.mapM fun v => (float? v).map fun x => (v, x)
  match numbered with
  | [] => none
  | first :: rest =>
    some (rest.foldl (fun best v => if better v.2 best.2 then v else best) first).1

def min : Function := fun args => best? (fun x y => x < y) (flatten args)

def max : Function := fun args => best? (fun x y => y < x) (flatten args)

def average : Function := fun args =>
  let values := flatten args
  if values.isEmpty then none
  else (sum? values).bind fun total => ofFloat? (total / Float.ofNat values.length)

/-- The sum of integers; nothing as soon as a partial sum does not fit the signed word. -/
def intSum : Function := fun args => do
  let total ← (flatten args).foldlM (fun total v => do
    let n ← int64? v
    if Text.inInt64 (total + n) then some (total + n) else none) (0 : Int)
  some (.ofInt total)

def doubleSum : Function := fun args => (sum? (flatten args)).bind ofFloat?

def toInteger : Function := fun args => (args.head?.bind int64?).map .ofInt

def toDouble : Function := fun args => (args.head?.bind float?).bind ofFloat?

def toBoolean : Function := fun args =>
  match args.head? with
  | some (.bool b) => some (.bool b)
  | some (.str text) =>
    match String.ofList ((Text.trim text.toList).map Number.asciiLower) with
    | "true" => some (.bool true)
    | "false" => some (.bool false)
    | _ => none
  | _ => none

def divide : Function
  | numerator :: denominator :: _ => do
    let x ← float? numerator
    let y ← float? denominator
    if y == 0 then none else ofFloat? (x / y)
  | _ => none

/-- Values that are all integers of the signed word. -/
def int64s? (values : List Json) : Option (List Int) :=
  values.mapM fun
    | .num n => n.toInt64?
    | _ => none

/-- The product: of integers exactly, as long as it fits, of anything else as a float. -/
def multiply : Function := fun args =>
  let values := flatten args
  if values.isEmpty then none
  else
    match int64s? values with
    | some ns =>
      (ns.foldlM (fun product n =>
        if Text.inInt64 (product * n) then some (product * n) else none) (1 : Int)).map .ofInt
    | none => (product? values).bind ofFloat?

/-! ## Lists -/

def size : Function := fun args =>
  match args.head? with
  | some (.arr elements) => some (.ofNat elements.length)
  | some (.obj fields) => some (.ofNat fields.length)
  | some (.str text) => some (.ofNat text.length)
  | _ => none

def firstElement : Function := fun args => (args.head?.bind Json.elements?).bind List.head?

def lastElement : Function := fun args => (args.head?.bind Json.elements?).bind List.getLast?

def elementAt : Function
  | .arr elements :: position :: _ => (index? position).bind fun n => elements[n]?
  | _ => none

def toList : Function := fun args =>
  args.head?.map fun
    | .arr elements => .arr elements
    | .null => .arr []
    | v => .arr [v]

/-- A list without its nulls, or an object without the fields that are null. -/
def squashNulls : Function := fun args =>
  match args.head? with
  | some (.arr elements) => some (.arr (elements.filter fun v => !v.isNull))
  | some (.obj fields) => some (.obj (fields.filter fun field => !field.2.isNull))
  | _ => none

def number? : Json → Option Number
  | .num n => some n
  | _ => none

def compareFloats (x y : Float) : Ordering := if x < y then .lt else if y < x then .gt else .eq

/-- A list of numbers by their values as floats, or a list of texts by code points. -/
def sort : Function := fun args =>
  (args.head?.bind Json.elements?).bind fun elements =>
    match elements.mapM number? with
    | some numbers =>
      some (.arr ((sortBy (fun a b => compareFloats a.toFloat b.toFloat) numbers).map .num))
    | none => (elements.mapM Json.string?).map fun texts => .arr ((sortBy compare texts).map .str)

/-! ## Predicates -/

def isPresent : Function := List.head?

def notNull : Function := fun args => args.head?.filter fun v => !v.isNull

def isNull : Function := fun args => args.head?.filter Json.isNull

/-- Every built-in function with the name that specs call it by. -/
def builtins : List (String × Function) :=
  [("toLower", ofText Text.toLower), ("toUpper", ofText Text.toUpper),
   ("trim", ofText Text.trimString), ("concat", concat), ("join", join), ("split", split),
   ("substring", substring), ("leftPad", leftPad), ("rightPad", rightPad), ("toString", asText),
   ("abs", abs), ("min", min), ("max", max), ("avg", average), ("intSum", intSum),
   ("doubleSum", doubleSum), ("toInteger", toInteger), ("toDouble", toDouble),
   ("toBoolean", toBoolean), ("divide", divide), ("multiply", multiply), ("size", size),
   ("firstElement", firstElement), ("lastElement", lastElement), ("elementAt", elementAt),
   ("toList", toList), ("squashNulls", squashNulls), ("sort", sort), ("isPresent", isPresent),
   ("notNull", notNull), ("isNull", isNull)]

end Function
end Reshape
