import Reshape.Walk.Outcome
/-!
# Shift

A shift copies what its spec matches into a new document. The right-hand side of a leaf is a write
path, a list of them, or null for none.
-/
namespace Reshape.Operation

open Pattern (WritePath)

/-- The write path of one element of a list of targets. -/
def shiftTarget (rootKey : String) : Json → Except SpecError WritePath
  | .str path => WritePath.parse path rootKey
  | v => .error (.unlocated
      (.invalidValue s!"shift targets must be strings, found {v.toText}"))

def shiftTargets (rootKey : String) : Json → Except SpecError (List WritePath)
  | .null => .ok []
  | .str path => (WritePath.parse path rootKey).map fun p => [p]
  | .arr paths => paths.mapM (shiftTarget rootKey)
  | v => .error (.unlocated (.invalidValue
      s!"a shift target must be a string, a list of strings or null, found {v.toText}"))

def shift : Policy (List WritePath) where
  compileTarget := fun config _ rhs => shiftTargets config.rootKey rhs
  validate := fun _ _ => .ok ()
  visitsMissing := false
  decide := fun v =>
    match v.data with
    | some data => if v.target.isEmpty then .skip else .write data v.target
    | none => .skip

/-- The shifted document; null when nothing was written. -/
def applyShift (spec : CompiledSpec (List WritePath)) (input : Json) : Json :=
  (spec.walk input).written spec.rootKey

end Reshape.Operation
