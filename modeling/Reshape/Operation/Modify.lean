import Reshape.Operation.Expression
import Reshape.Walk.Outcome
/-!
# Modify

A modify spec computes values in place. The right-hand side of a leaf is a value, or a list of
values of which the first that can be produced counts; where none can, nothing is written.
-/
namespace Reshape.Operation

/-- When a modify leaf writes. -/
inductive ModifyMode where
  | overwrite
  /-- Where the value is missing or null. -/
  | default
  /-- Where the value is missing. -/
  | define
  deriving Repr, DecidableEq, Inhabited

namespace ModifyMode

def name : ModifyMode → String
  | overwrite => "modify-overwrite"
  | default => "modify-default"
  | define => "modify-define"

def appliesTo : ModifyMode → Option Json → Bool
  | overwrite, _ => true
  | default, none => true
  | default, some v => v.isNull
  | define, current => current.isNone

end ModifyMode

/-- The candidates for a value, in the order in which they are tried. -/
def modifyTarget (registry : Registry) (config : Config) (location : String) :
    Json → Except SpecError (List Source)
  | .arr [] => .error ⟨.invalidValue "empty list of candidates", location⟩
  | .arr items => items.mapM (Scope.source ⟨registry, location⟩ config.functions)
  | rhs => (Scope.source ⟨registry, location⟩ config.functions rhs).map fun s => [s]

def evaluateFirst? (candidates : List Source) (current : Option Json) (frames : Frames) :
    Option Json :=
  candidates.findSome? (Source.evaluate? current frames)

def modify (mode : ModifyMode) (registry : Registry) : Policy (List Source) where
  compileTarget := modifyTarget registry
  validate := Policy.accepting "modify" Policy.acceptsInPlace
  visitsMissing := true
  decide := fun v =>
    if mode.appliesTo v.data then
      match evaluateFirst? v.target v.data v.frames with
      | some value => .replace value
      | none => .skip
    else .skip

def applyModify (spec : CompiledSpec (List Source)) (input : Json) : Json :=
  (spec.walk input).edited input

end Reshape.Operation
