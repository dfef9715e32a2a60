import Reshape.Walk.Outcome
/-!
# Cardinality

A cardinality spec turns values into single values or into lists. The right-hand side of a leaf is
`ONE` or `MANY`, in any case.
-/
namespace Reshape.Operation

inductive Multiplicity where
  | one
  | many
  deriving Repr, DecidableEq, Inhabited

namespace Multiplicity

def name : Multiplicity → String
  | one => "ONE"
  | many => "MANY"

/-- The value in the right shape; nothing if it has that shape already. -/
def normalize? : Multiplicity → Json → Option Json
  | one, .arr elements => some (elements.head?.getD .null)
  | one, _ => none
  | many, .arr _ => none
  | many, .null => none
  | many, v => some (.arr [v])

def asciiUpper (c : Char) : Char :=
  if 'a' ≤ c && c ≤ 'z' then Char.ofNat (c.toNat - 32) else c

/-- The multiplicity of a name, in any case. -/
def ofName? (text : String) : Option Multiplicity :=
  match String.ofList (text.toList.map asciiUpper) with
  | "ONE" => some one
  | "MANY" => some many
  | _ => none

def ofTarget (rhs : Json) : Except SpecError Multiplicity :=
  match rhs.string?.bind ofName? with
  | some m => .ok m
  | none => .error (.unlocated
      (.invalidValue s!"cardinality must be \"ONE\" or \"MANY\", found {rhs.toText}"))

end Multiplicity

def cardinality : Policy Multiplicity where
  compileTarget := fun _ _ rhs => Multiplicity.ofTarget rhs
  validate := Policy.accepting "cardinality" Policy.acceptsInPlace
  visitsMissing := false
  decide := fun v =>
    match v.data.bind v.target.normalize? with
    | some value => .replace value
    | none => .skip

def applyCardinality (spec : CompiledSpec Multiplicity) (input : Json) : Json :=
  (spec.walk input).edited input

end Reshape.Operation
