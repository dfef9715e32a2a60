import Reshape.Json.Text
import Reshape.Spec.Config
import Reshape.Walk.Visit
/-!
# Policies

A policy is what one operation makes of a spec: how right-hand sides are compiled, which keys have
a meaning, and what is done at a visit.
-/
namespace Reshape

open Pattern (Element)

structure Policy (τ : Type) where
  /-- Compile the right-hand side of a leaf at a location of the spec. -/
  compileTarget : Config → (location : String) → Json → Except SpecError τ
  /-- Refuse keys that the operation has no meaning for. -/
  validate : (location : String) → Element → Except SpecError Unit
  /-- Literal keys that the input does not have are visited too. -/
  visitsMissing : Bool
  decide : Visit τ → Decision

/-- The word for the type of a value, with its article. -/
def Json.typeName : Json → String
  | .null => "null"
  | .bool _ => "a boolean"
  | .num _ => "a number"
  | .str _ => "a string"
  | .arr _ => "a list"
  | .obj _ => "an object"

/-- Accept elements with a property and refuse others in the name of an operation. -/
def Policy.accepting (operation : String) (accepts : Element → Bool) (location : String)
    (e : Element) : Except SpecError Unit :=
  if accepts e then .ok ()
  else .error ((SpecError.unlocated (.invalidKey e.canonical
    s!"{e.kind} keys are not supported in {operation} specs" none)).locatedAt location)

/-- Elements that match keys, and the value of the level itself. -/
def Policy.acceptsInPlace : Element → Bool
  | .value => true
  | e => !e.isSpecial

end Reshape
