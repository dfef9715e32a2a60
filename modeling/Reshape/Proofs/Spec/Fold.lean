import Reshape.Proofs.Spec.Compiled
/-!
# Recursion on compiled trees

A function of the nodes of a tree by recursion: a value for each leaf, and one for each level from
those of its children.
-/
namespace Reshape

open Pattern (Element)

variable {τ α β : Type}

/-- The level with a function applied to each of its children. -/
def Composite.map (f : α → β) (level : Composite α) : Composite β :=
  ⟨level.element, level.rawKey, level.isArray, level.special.map f,
    level.literal.map fun field => (field.1, f field.2), level.computed.map f, level.strategy⟩

theorem Composite.children_map (f : α → β) (level : Composite α) :
    (level.map f).children = level.children.map f := by
  simp [Composite.children, Composite.map]

mutual
/-- A value for a node from those for its leaves, level by level. -/
def Node.fold (leaf : Element → τ → α) (combine : Composite α → α) : Node τ → α
  | .leaf element _ target => leaf element target
  | .composite level => combine (foldLevel leaf combine level)

def foldLevel (leaf : Element → τ → α) (combine : Composite α → α) :
    Composite (Node τ) → Composite α
  | ⟨element, rawKey, isArray, special, literal, computed, strategy⟩ =>
    ⟨element, rawKey, isArray, foldNodes leaf combine special, foldFields leaf combine literal,
      foldNodes leaf combine computed, strategy⟩

def foldNodes (leaf : Element → τ → α) (combine : Composite α → α) : List (Node τ) → List α
  | [] => []
  | node :: rest => node.fold leaf combine :: foldNodes leaf combine rest

def foldFields (leaf : Element → τ → α) (combine : Composite α → α) :
    List (String × Node τ) → List (String × α)
  | [] => []
  | (key, node) :: rest => (key, node.fold leaf combine) :: foldFields leaf combine rest
end

section Fold

variable {leaf : Element → τ → α} {combine : Composite α → α}

theorem foldNodes_eq (nodes : List (Node τ)) :
    foldNodes leaf combine nodes = nodes.map (Node.fold leaf combine) := by
  induction nodes with
  | nil => rfl
  | cons node rest ih => rw [foldNodes, ih, List.map_cons]

theorem foldFields_eq (nodes : List (String × Node τ)) :
    foldFields leaf combine nodes =
      nodes.map fun field => (field.1, field.2.fold leaf combine) := by
  induction nodes with
  | nil => rfl
  | cons field rest ih => rw [foldFields, ih, List.map_cons]

@[simp] theorem Node.fold_composite (level : Level τ) :
    (Node.composite level).fold leaf combine = combine (level.map (Node.fold leaf combine)) := by
  obtain ⟨element, rawKey, isArray, special, literal, computed, strategy⟩ := level
  rw [Node.fold, foldLevel, foldNodes_eq, foldNodes_eq, foldFields_eq]
  rfl

end Fold

end Reshape
