import Reshape.Pattern.Path
import Reshape.Address.Write
import Reshape.Spec.Error
/-!
# Write paths

The right-hand side of a shift is a path expression that says where in the output a value goes. It
starts with the key of the root level, so the empty text stands for the whole output.
-/
namespace Reshape.Pattern

structure WritePath where
  raw : String
  steps : List PathStep

namespace WritePath

instance : BEq WritePath := ⟨fun a b => a.raw == b.raw && beqSteps a.steps b.steps⟩

/-- Parse a path below the root level. -/
def parse (raw rootKey : String) : Except SpecError WritePath :=
  match parseSteps raw.toList 0 with
  | .ok steps => .ok ⟨raw, .key (.literal rootKey) :: steps⟩
  | .error e => .error (e.toPathError raw)

def resolve? (p : WritePath) (frames : Frames) : Option Address := resolveSteps? frames p.steps

/-- Merge a value into the output; nothing happens if the path does not resolve. -/
def write (p : WritePath) (value output : Json) (frames : Frames) : Json × Bool :=
  match p.resolve? frames with
  | some address => output.writeMerged address value
  | none => (output, false)

/-- The value that is at this path now. -/
def read? (p : WritePath) (document : Json) (frames : Frames) : Option Json :=
  (p.resolve? frames).bind document.get?

def canonical (p : WritePath) : String := String.ofList (canonicalSteps [] p.steps)

end WritePath
end Reshape.Pattern
