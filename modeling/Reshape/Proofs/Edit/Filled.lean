import Reshape.Operation.Default
import Reshape.Proofs.Edit.Holes
import Reshape.Proofs.Spec.Fold
import Reshape.Proofs.Walk.Strategy
/-!
# Defaults as a function of the document

Walking a document for a default spec and making the edits fills in every level of the compiled
tree in turn, so what defaults make of a document is a function by recursion on the tree. Applying
them again changes nothing if no key of any level can be handed to two children.
-/
namespace Reshape

open Pattern (Element)

variable {τ α β : Type}

/-! ## Separated trees -/

/-- Literal children do not stand with computed ones, and no two of them stand for one index. -/
def Composite.isSeparated (level : Composite α) : Bool :=
  (level.literal.isEmpty || level.computed.isEmpty) &&
    decide (level.literal.filterMap fun field => Text.word? field.1).Nodup

/-- Every level of the node is separated. -/
def Node.isSeparated (node : Node τ) : Bool :=
  node.fold (fun _ _ => true) fun level => level.isSeparated && level.children.all id

theorem Composite.isSeparated_map (f : α → β) (level : Composite α) :
    (level.map f).isSeparated = level.isSeparated := by
  rw [isSeparated, isSeparated, Composite.map]
  simp only [List.filterMap_map, List.isEmpty_map, Function.comp_def]

theorem Node.isSeparated_composite {level : Level τ}
    (h : (Node.composite level).isSeparated = true) :
    level.isSeparated = true ∧ ∀ child ∈ level.children, child.isSeparated = true := by
  rw [isSeparated, fold_composite, Bool.and_eq_true, Composite.isSeparated_map,
    Composite.children_map, List.all_map, List.all_eq_true] at h
  exact h

theorem Composite.Ordered.separated {level : Level τ} (hord : level.Ordered)
    (h : level.isSeparated = true) (f : Node τ → α) : (level.map f).Separated := by
  obtain ⟨hkind, hindices⟩ := Bool.and_eq_true_iff.mp h
  constructor
  · exact List.pairwise_map.mpr hord.literal_sorted
  · rcases Bool.or_eq_true_iff.mp hkind with hnil | hnil
    · left
      rw [Composite.map, List.isEmpty_iff.mp hnil]
      rfl
    · right
      rw [Composite.map, List.isEmpty_iff.mp hnil]
      rfl
  · rw [Composite.map, List.filterMap_map]
    exact of_decide_eq_true hindices

/-! ## What a tree of defaults fills in -/

/-- A leaf sets its value in place of null, a level what its children set. -/
def Node.filler (node : Node Json) : Filler :=
  node.fold (fun element target => ⟨element, fun v => if v.isNull then [([], target)] else []⟩)
    fun level => ⟨level.element, level.fills⟩

@[simp] theorem Node.filler_composite (level : Level Json) :
    (Node.composite level).filler = ⟨level.element, (level.map Node.filler).fills⟩ :=
  Node.fold_composite level

@[simp] theorem Node.filler_element (node : Node Json) : node.filler.element = node.element := by
  cases node with
  | leaf element rawKey target => rfl
  | composite level =>
    rw [filler_composite]
    rfl

theorem Node.filler_leaf_settles (element : Element) (rawKey : String) (target : Json) :
    (Node.leaf element rawKey target).filler.Settles := by
  intro v _
  have hnull : (Node.leaf element rawKey target).filler.filled .null = target := rfl
  have hvalue : ∀ {v : Json}, v.isNull = false →
      (Node.leaf element rawKey target).filler.filled v = v := by
    intro v hv
    have hfills : (Node.leaf element rawKey target).filler.fills v = [] :=
      if_neg (Bool.eq_false_iff.mp hv)
    rw [Filler.filled, hfills]
    rfl
  cases v with
  | null =>
    rw [hnull]
    cases target with
    | null => rfl
    | _ => exact hvalue rfl
  | _ => exact congrArg _ (hvalue rfl)

/-- Filling a separated level a second time changes nothing, if that holds for its children. -/
theorem Composite.Ordered.filled_filled {level : Level Json} (hord : level.Ordered)
    (hsep : (Node.composite level).isSeparated = true)
    (hsettle : ∀ child ∈ level.children, child.isSeparated = true → child.filler.Settles)
    {v : Json} (hv : v.WellFormed) :
    (level.map Node.filler).filled ((level.map Node.filler).filled v) =
      (level.map Node.filler).filled v := by
  obtain ⟨hlevel, hchildren⟩ := Node.isSeparated_composite hsep
  refine Composite.filled_filled (hord.separated hlevel Node.filler) hv ?_
  intro filler hf
  rw [Composite.children_map] at hf
  obtain ⟨child, hc, rfl⟩ := List.mem_map.mp hf
  exact hsettle child hc (hchildren child hc)

/-- Filling in what a separated tree fills in a second time changes nothing. -/
theorem Node.Compiled.settles {p : Policy Json} {node : Node Json} (h : node.Compiled p)
    (hsep : node.isSeparated = true) : node.filler.Settles := by
  induction h with
  | @leaf element rawKey target _ => exact Node.filler_leaf_settles element rawKey target
  | @composite level _ _ hord _ ih =>
    rw [Node.filler_composite]
    intro v hv
    exact hord.filled_filled hsep ih hv

end Reshape
