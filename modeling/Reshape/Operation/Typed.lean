import Reshape.Operation.Chain
/-!
# Typed results

A result can be asked for as a value of a certain type. Integers come only from integers in range,
floats from any number, and everything else from its own kind of value.
-/
namespace Reshape.Operation

inductive ResultType where
  | int64
  | word
  | float
  | bool
  | text
  | texts
  | object
  deriving Repr, DecidableEq, Inhabited

namespace ResultType

/-- The value of a document as a value of the type. -/
def decode? : ResultType → Json → Option Json
  | int64, .num n => n.toInt64?.map .ofInt
  | word, .num n => n.toWord?.map .ofNat
  | float, .num n => some (.num (.float n.toFloat))
  | bool, .bool b => some (.bool b)
  | text, .str s => some (.str s)
  | texts, .arr elements => if elements.all Json.isString then some (.arr elements) else none
  | object, .obj fields => some (.obj fields)
  | _, _ => none

/-- The result of an operation as a value of the type. -/
def decode (t : ResultType) (result : Json) : Except EngineError Json :=
  match t.decode? result with
  | some v => .ok v
  | none => .error (.undecodable "transformed document does not match the requested type")

end ResultType
end Reshape.Operation
