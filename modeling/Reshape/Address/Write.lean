import Reshape.Address.Basic
/-!
# Writing and removing at an address

A write makes the containers it needs: null becomes an object under a key step and a list under
the others, and a list is padded with nulls up to the index written. It fails where a step does not
fit the container that is there or an index is too large; what it has made on the way stays.
-/
namespace Reshape

/-- The empty container that a step goes into. -/
def Step.emptyContainer : Step → Json
  | .key _ => .obj []
  | .index _ => .arr []
  | .append => .arr []

namespace Json

/-- The list, padded with nulls so that it has an element at `position`. -/
def padTo (position : Nat) (elements : List Json) : List Json :=
  elements ++ List.replicate (position + 1 - elements.length) .null

/-- Change the value at an address by `change`, which sees null where nothing is; the second part
says whether the address was reached. -/
def update (change : Json → Json) : Json → Address → Json × Bool
  | v, [] => (change v, true)
  | v, step :: rest =>
    match (if v.isNull then step.emptyContainer else v), step with
    | .obj fields, .key name =>
      let (child, done) := update change ((fields.lookup name).getD .null) rest
      (.obj (Fields.insert name child fields), done)
    | .arr elements, .index position =>
      if position ≤ Address.maxIndex then
        let padded := padTo position elements
        let (child, done) := update change (padded.getD position .null) rest
        (.arr (padded.set position child), done)
      else (.arr elements, false)
    | .arr elements, .append =>
      let (child, done) := update change .null rest
      (.arr (elements ++ [child]), done)
    | v, _ => (v, false)

/-- What a slot holds after a value is merged into it: null gives way, a list grows, and any other
value becomes the first element of a list. -/
def merged (value : Json) : Json → Json
  | .null => value
  | .arr elements => .arr (elements ++ [value])
  | old => .arr [old, value]

/-- Merge a value into what is at an address. -/
def writeMerged (v : Json) (address : Address) (value : Json) : Json × Bool :=
  v.update (merged value) address

/-- Overwrite what is at an address. -/
def set (v : Json) (address : Address) (value : Json) : Json × Bool :=
  v.update (fun _ => value) address

/-- Take the value at an address out of the document; list elements behind it move up. -/
def remove? : Json → Address → Option (Json × Json)
  | .obj fields, [.key name] =>
    (fields.lookup name).map fun v => (v, .obj (Fields.erase name fields))
  | .arr elements, [.index position] =>
    elements[position]?.map fun v => (v, .arr (elements.eraseIdx position))
  | .obj fields, .key name :: rest => do
    let child ← fields.lookup name
    let (v, child) ← remove? child rest
    some (v, .obj (Fields.insert name child fields))
  | .arr elements, .index position :: rest => do
    let child ← elements[position]?
    let (v, child) ← remove? child rest
    some (v, .arr (elements.set position child))
  | _, _ => none

/-- The document without the value at an address, or as it was if there is none. -/
def remove (v : Json) (address : Address) : Json :=
  match v.remove? address with
  | some (_, rest) => rest
  | none => v

end Json
end Reshape
