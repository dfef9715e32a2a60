import Reshape.Walk.Outcome
/-!
# Default

A default spec fills in values that the input lacks or holds as null. Its keys are literal or
wildcards, and its leaves are the values.
-/
namespace Reshape.Operation

open Pattern (Element)

def acceptsDefault : Element → Bool
  | .literal _ => true
  | e => e.isStar

def default : Policy Json where
  compileTarget := fun _ _ rhs => .ok rhs
  validate := Policy.accepting "default" acceptsDefault
  visitsMissing := true
  decide := fun v =>
    match v.data with
    | none => .replace v.target
    | some .null => .replace v.target
    | some _ => .skip

def applyDefault (spec : CompiledSpec Json) (input : Json) : Json :=
  (spec.walk input).edited input

end Reshape.Operation
