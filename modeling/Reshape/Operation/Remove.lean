import Reshape.Walk.Outcome
/-!
# Remove

A remove spec deletes what its leaves match. The right-hand side of a leaf is null or the empty
string.
-/
namespace Reshape.Operation

def removeTarget : Json → Except SpecError Unit
  | .null => .ok ()
  | .str "" => .ok ()
  | v => .error (.unlocated
      (.invalidValue s!"remove specs take \"\" or null at leaves, found {v.toText}"))

def remove : Policy Unit where
  compileTarget := fun _ _ rhs => removeTarget rhs
  validate := Policy.accepting "remove" fun e => !e.isSpecial
  visitsMissing := false
  decide := fun _ => .remove

def applyRemove (spec : CompiledSpec Unit) (input : Json) : Json :=
  (spec.walk input).edited input

end Reshape.Operation
