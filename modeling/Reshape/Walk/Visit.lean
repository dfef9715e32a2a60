import Reshape.Pattern.Element
import Reshape.Pattern.WritePath
/-!
# Visits and decisions

A walk visits the leaves of a spec that match something. What happens at a visit is decided by the
operation: write to the output, or edit the input at the place visited.
-/
namespace Reshape

open Pattern (Element WritePath)

/-- A leaf and what it matched. -/
structure Visit (τ : Type) where
  element : Element
  target : τ
  /-- The key that was matched. -/
  key : String
  /-- The value there, nothing for a key that the input does not have. -/
  data : Option Json
  /-- The open levels, the leaf's own first. -/
  frames : Frames
  /-- The place in the input; nothing for what was not reached through its structure. -/
  location : Option Address

inductive Decision where
  | skip
  | write (data : Json) (targets : List WritePath)
  | replace (value : Json)
  | remove

/-- What is done to the input at a place. -/
inductive Change where
  | replace (value : Json)
  | remove

structure Edit where
  location : Address
  change : Change

end Reshape
