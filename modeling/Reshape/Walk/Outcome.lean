import Reshape.Walk.Walker
/-!
# The outcome of a walk

The decisions taken at the visits, in order, build an output document and a list of edits to the
input. Only visits at a place in the input make edits.
-/
namespace Reshape

variable {τ : Type}

/-- The output, still below the root key, and the edits in the order of the walk. -/
structure Outcome where
  output : Json
  edits : List Edit

namespace Outcome

/-- Write a value to each path that resolves. -/
def writeAll (output : Json) (frames : Frames) (data : Json)
    (targets : List Pattern.WritePath) : Json :=
  targets.foldl (fun output path => (path.write data output frames).1) output

def edit? (v : Visit τ) : Decision → Option Edit
  | .replace value => v.location.map fun location => ⟨location, .replace value⟩
  | .remove => v.location.map fun location => ⟨location, .remove⟩
  | _ => none

/-- The output after one visit. -/
def outputAfter (decide : Visit τ → Decision) (output : Json) (v : Visit τ) : Json :=
  match decide v with
  | .write data targets => writeAll output v.frames data targets
  | _ => output

def ofVisits (decide : Visit τ → Decision) (visits : List (Visit τ)) : Outcome :=
  { output := visits.foldl (outputAfter decide) (.obj [])
    edits := visits.filterMap fun v => edit? v (decide v) }

/-- What was written below the root key; null if nothing was. -/
def written (o : Outcome) (rootKey : String) : Json := (o.output.field? rootKey).getD .null

def replacement? (e : Edit) : Option (Address × Json) :=
  match e.change with
  | .replace value => some (e.location, value)
  | .remove => none

def removal? (e : Edit) : Option Address :=
  match e.change with
  | .replace _ => none
  | .remove => some e.location

/-- Drop elements that equal the one before them. -/
def dedup : List Address → List Address
  | [] => []
  | a :: rest =>
    match dedup rest with
    | [] => [a]
    | b :: more => if a = b then b :: more else a :: b :: more

/-- Removing the root leaves null. -/
def removeAt (v : Json) (location : Address) : Json :=
  if location.isEmpty then .null else v.remove location

/-- The input with the edits made: replacements in order, then removals, the last places first, so
that the places of the others stay valid. -/
def edited (o : Outcome) (input : Json) : Json :=
  let replaced := (o.edits.filterMap replacement?).foldl
    (fun v (location, value) => (v.set location value).1) input
  let removals := dedup (sortBy (fun a b => Address.compare b a) (o.edits.filterMap removal?))
  removals.foldl removeAt replaced

end Outcome

/-- Walk an input and take the policy's decisions. -/
def CompiledSpec.walk (spec : CompiledSpec τ) (input : Json) : Outcome :=
  Outcome.ofVisits spec.policy.decide (spec.visits input)

end Reshape
