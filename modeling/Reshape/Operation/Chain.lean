import Reshape.Operation.Cardinality
import Reshape.Operation.Default
import Reshape.Operation.Modify
import Reshape.Operation.Remove
import Reshape.Operation.Shift
/-!
# Operations and chains

An operation is named by its kind; the names with `-beta` at the end are older spellings. A chain
is a list of operations that work on each other's results. All of them are compiled before any
input is seen.
-/
namespace Reshape

open Operation

inductive OperationKind where
  | shift
  | default
  | remove
  | modify (mode : ModifyMode)
  | cardinality
  deriving Repr, DecidableEq, Inhabited

namespace OperationKind

def name : OperationKind → String
  | shift => "shift"
  | default => "default"
  | remove => "remove"
  | modify mode => mode.name
  | cardinality => "cardinality"

def all : List OperationKind :=
  [shift, default, remove, modify .overwrite, modify .default, modify .define, cardinality]

/-- The kind of a name in either spelling. -/
def ofName? (name : String) : Option OperationKind :=
  (all.find? fun kind => kind.name == name).or
    (all.find? fun kind => kind.name ++ "-beta" == name)

/-- The kind of a name; any other name is an error. -/
def parse (name : String) : Except SpecError OperationKind :=
  match ofName? name with
  | some kind => .ok kind
  | none => .error (.unlocated (.invalidChain 0 s!"unknown operation '{name}'"))

end OperationKind

/-- A compiled operation. -/
inductive Transform where
  | shift (spec : CompiledSpec (List Pattern.WritePath))
  | default (spec : CompiledSpec Json)
  | remove (spec : CompiledSpec Unit)
  | modify (mode : ModifyMode) (spec : CompiledSpec (List Source))
  | cardinality (spec : CompiledSpec Multiplicity)

namespace Transform

def compile (registry : Registry) (config : Config) (spec : Json) :
    OperationKind → Except SpecError Transform
  | .shift => (CompiledSpec.compile Operation.shift spec config).map .shift
  | .default => (CompiledSpec.compile Operation.default spec config).map .default
  | .remove => (CompiledSpec.compile Operation.remove spec config).map .remove
  | .modify mode =>
    (CompiledSpec.compile (Operation.modify mode registry) spec config).map (.modify mode)
  | .cardinality => (CompiledSpec.compile Operation.cardinality spec config).map .cardinality

/-- The result of the operation on an input. -/
def apply (t : Transform) (input : Json) : Json :=
  match t with
  | .shift spec => applyShift spec input
  | .default spec => applyDefault spec input
  | .remove spec => applyRemove spec input
  | .modify _ spec => applyModify spec input
  | .cardinality spec => applyCardinality spec input

/-- What a walk of the operation over an input produces. -/
def walk (t : Transform) (input : Json) : Outcome :=
  match t with
  | .shift spec => spec.walk input
  | .default spec => spec.walk input
  | .remove spec => spec.walk input
  | .modify _ spec => spec.walk input
  | .cardinality spec => spec.walk input

/-- Operations of one kind are equal if their specs are; the mode of a modify spec is not part of
the comparison. -/
def beq : Transform → Transform → Bool
  | .shift a, .shift b => a == b
  | .default a, .default b => a == b
  | .remove a, .remove b => a == b
  | .modify _ a, .modify _ b => a == b
  | .cardinality a, .cardinality b => a == b
  | _, _ => false

instance : BEq Transform := ⟨beq⟩

end Transform

/-- One operation of a chain, under the kind it was named by. -/
structure Stage where
  kind : OperationKind
  transform : Transform

instance : BEq Stage := ⟨fun a b => a.kind == b.kind && a.transform == b.transform⟩

structure Chain where
  stages : List Stage

instance : BEq Chain := ⟨fun a b => a.stages == b.stages⟩

namespace Chain

/-- The kind and the spec of the entry at a position. -/
def entry (position : Nat) (v : Json) : Except EngineError (OperationKind × Json) :=
  let invalid (message : String) : Except EngineError (OperationKind × Json) :=
    .error (.spec (.unlocated (.invalidChain position message)))
  match v with
  | .obj fields =>
    match fields.lookup "operation" with
    | some (.str name) =>
      match OperationKind.ofName? name with
      | none => invalid s!"unknown operation '{name}'"
      | some kind =>
        match fields.lookup "spec" with
        | none => invalid "missing 'spec'"
        | some spec => .ok (kind, spec)
    | some other => invalid s!"'operation' must be a string, found {other.toText}"
    | none => invalid "missing 'operation'"
  | v => invalid s!"entry must be an object, found {v.typeName}"

def stage (registry : Registry) (config : Config) (position : Nat) (v : Json) :
    Except EngineError Stage := do
  let (kind, spec) ← entry position v
  match Transform.compile registry config spec kind with
  | .ok transform => .ok ⟨kind, transform⟩
  | .error e => .error (.chainStep position kind.name e)

/-- Compile the entries of a list in order; the first one that fails decides the error. -/
def compile (registry : Registry) (config : Config) (spec : Json) : Except EngineError Chain :=
  match spec with
  | .arr entries =>
    (entries.zipIdx.mapM fun (v, position) => stage registry config position v).map Chain.mk
  | v => .error (.spec (.unlocated
      (.invalidChain 0 s!"a chain must be a list of entries, found {v.typeName}")))

/-- The operations in the order in which they run. -/
def operations (c : Chain) : List OperationKind := c.stages.map Stage.kind

/-- Each operation works on the result of the one before it. -/
def apply (c : Chain) (input : Json) : Json :=
  c.stages.foldl (fun current stage => stage.transform.apply current) input

end Chain
end Reshape
