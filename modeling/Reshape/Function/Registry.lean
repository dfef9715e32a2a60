import Reshape.Function.Builtin
/-!
# Function registries

The functions that a modify spec may call, by name.
-/
namespace Reshape

/-- Functions in the order of their names, each name once. -/
structure Registry where
  functions : List (String × Function)

namespace Registry

def empty : Registry := ⟨[]⟩

/-- Add a function, in place of one of that name. -/
def register (r : Registry) (name : String) (f : Function) : Registry :=
  ⟨Fields.insert name f r.functions⟩

def builtin : Registry := ⟨Fields.ofPairs Function.builtins⟩

def get? (r : Registry) (name : String) : Option Function := r.functions.lookup name

def contains (r : Registry) (name : String) : Bool := (r.get? name).isSome

def names (r : Registry) : List String := r.functions.map Prod.fst

def size (r : Registry) : Nat := r.functions.length

end Registry
end Reshape
