import Reshape.Pattern.Element
/-!
# Compiled specs

A compiled spec is a tree. A composite stands for a level of the input and sorts its children by
role; a leaf carries the target that an operation compiled from the right-hand side.
-/
namespace Reshape

open Pattern (Element)

/-- How a composite hands the keys of an object to its children. -/
inductive Strategy where
  /-- Only literal children: look each of them up in the object. -/
  | literalsOnly
  /-- Only computed children: try each key against them in order. -/
  | computedOnly
  /-- Both, and no key can match both: a literal child decides a key alone. -/
  | noConflict
  /-- Both, and some overlap: computed children see what no literal child claims. -/
  | conflict
  deriving Repr, DecidableEq, Inhabited

def Strategy.name : Strategy → String
  | literalsOnly => "literals_only"
  | computedOnly => "computed_only"
  | noConflict => "no_conflict"
  | conflict => "conflict"

/-- A level of a spec over children of type `α`. -/
structure Composite (α : Type) where
  element : Element
  rawKey : String
  /-- The level is declared to be a list. -/
  isArray : Bool
  /-- Children that describe the level itself. -/
  special : List α
  /-- Children by their unescaped key, in key order. -/
  literal : List (String × α)
  /-- Children in the order in which they are tried. -/
  computed : List α
  strategy : Strategy

/-- A key of a spec with what belongs to it. -/
inductive Node (τ : Type) where
  | leaf (element : Element) (rawKey : String) (target : τ)
  | composite (level : Composite (Node τ))

abbrev Level (τ : Type) := Composite (Node τ)

namespace Node

variable {τ : Type}

def element : Node τ → Element
  | .leaf element _ _ => element
  | .composite level => level.element

mutual
def beq [BEq τ] : Node τ → Node τ → Bool
  | .leaf e k t, .leaf e' k' t' => e == e' && k == k' && t == t'
  | .composite a, .composite b => beqLevel a b
  | _, _ => false

def beqLevel [BEq τ] : Composite (Node τ) → Composite (Node τ) → Bool
  | ⟨e, k, a, s, l, c, t⟩, ⟨e', k', a', s', l', c', t'⟩ =>
    e == e' && k == k' && a == a' && beqList s s' && beqFields l l' && beqList c c' && t == t'

def beqList [BEq τ] : List (Node τ) → List (Node τ) → Bool
  | [], [] => true
  | a :: as, b :: bs => beq a b && beqList as bs
  | _, _ => false

def beqFields [BEq τ] : List (String × Node τ) → List (String × Node τ) → Bool
  | [], [] => true
  | (k, a) :: as, (k', b) :: bs => k == k' && beq a b && beqFields as bs
  | _, _ => false
end

instance [BEq τ] : BEq (Node τ) := ⟨beq⟩

end Node

/-- The number of direct children. -/
def Composite.childCount {α : Type} (c : Composite α) : Nat :=
  c.special.length + c.literal.length + c.computed.length

/-- The shape of a compiled spec. -/
structure SpecStats where
  composites : Nat := 0
  leaves : Nat := 0
  special : Nat := 0
  literal : Nat := 0
  computed : Nat := 0
  maxDepth : Nat := 0
  literalsOnly : Nat := 0
  computedOnly : Nat := 0
  noConflict : Nat := 0
  conflict : Nat := 0
  deriving Repr, DecidableEq, Inhabited

namespace SpecStats

def addStrategy (s : SpecStats) : Strategy → SpecStats
  | .literalsOnly => { s with literalsOnly := s.literalsOnly + 1 }
  | .computedOnly => { s with computedOnly := s.computedOnly + 1 }
  | .noConflict => { s with noConflict := s.noConflict + 1 }
  | .conflict => { s with conflict := s.conflict + 1 }

def addComposite (s : SpecStats) (depth : Nat) : SpecStats :=
  { s with composites := s.composites + 1, maxDepth := max s.maxDepth depth }

def addLeaf (s : SpecStats) : SpecStats := { s with leaves := s.leaves + 1 }

def addSpecial (s : SpecStats) : SpecStats := { s with special := s.special + 1 }

def addLiteral (s : SpecStats) : SpecStats := { s with literal := s.literal + 1 }

def addComputed (s : SpecStats) : SpecStats := { s with computed := s.computed + 1 }

end SpecStats
end Reshape
