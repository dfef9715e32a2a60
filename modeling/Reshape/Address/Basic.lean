import Reshape.Json.Text
/-!
# Addresses in a document

An address is a sequence of steps into a document. Reading steps by key or index; a key that
spells a number also finds an element of a list.
-/
namespace Reshape

/-- One step into a document. -/
inductive Step where
  | key (name : String)
  | index (position : Nat)
  | append
  deriving Repr, DecidableEq, Inhabited

abbrev Address := List Step

namespace Step

/-- Keys come before indices and indices before the end of a list. -/
def compare : Step → Step → Ordering
  | .key a, .key b => Ord.compare a b
  | .key _, _ => .lt
  | .index _, .key _ => .gt
  | .index a, .index b => Ord.compare a b
  | .index _, .append => .lt
  | .append, .append => .eq
  | .append, _ => .gt

end Step

namespace Address

/-- Addresses compare step by step; one that starts another comes before it. -/
def compare : Address → Address → Ordering
  | [], [] => .eq
  | [], _ :: _ => .lt
  | _ :: _, [] => .gt
  | a :: as, b :: bs => (Step.compare a b).then (compare as bs)

/-- The greatest index a write may pad a list out to. -/
def maxIndex : Nat := 1000000

end Address

namespace Json

/-- The child one step into a document. -/
def child? : Json → Step → Option Json
  | .obj fields, .key name => fields.lookup name
  | .arr elements, .index position => elements[position]?
  | .arr elements, .key name => (Text.word? name).bind fun position => elements[position]?
  | _, _ => none

/-- The value at an address. -/
def get? (v : Json) : Address → Option Json
  | [] => some v
  | step :: rest => (v.child? step).bind fun child => get? child rest

end Json
end Reshape
