import Mathlib.Algebra.BigOperators.Group.List.Basic
import Mathlib.Algebra.GroupWithZero.Nat
import Reshape.Proofs.Spec.Levels
/-!
# Sums of counts

The counts of parts of a spec are added up, except that the depth of two parts is that of the deeper
one. Each step of compiling adds a count of its own.
-/
namespace Reshape

open Pattern (Element)

namespace SpecStats

/-- The counts of two parts of a spec together. -/
def plus (a b : SpecStats) : SpecStats where
  composites := a.composites + b.composites
  leaves := a.leaves + b.leaves
  special := a.special + b.special
  literal := a.literal + b.literal
  computed := a.computed + b.computed
  maxDepth := max a.maxDepth b.maxDepth
  literalsOnly := a.literalsOnly + b.literalsOnly
  computedOnly := a.computedOnly + b.computedOnly
  noConflict := a.noConflict + b.noConflict
  conflict := a.conflict + b.conflict

theorem plus_assoc (a b c : SpecStats) : (a.plus b).plus c = a.plus (b.plus c) := by
  simp only [plus, Nat.add_assoc, Nat.max_assoc]

theorem plus_right_comm (s a b : SpecStats) : (s.plus a).plus b = (s.plus b).plus a := by
  simp only [plus, Nat.add_right_comm, Nat.max_assoc, Nat.max_comm a.maxDepth]

@[simp] theorem plus_empty (s : SpecStats) : s.plus {} = s := by
  simp only [plus, Nat.add_zero, Nat.max_zero]

instance : Zero SpecStats := ⟨{}⟩

instance : Add SpecStats := ⟨plus⟩

theorem zero_def : (0 : SpecStats) = {} := rfl

theorem add_def (a b : SpecStats) : a + b = a.plus b := rfl

instance : AddCommMonoid SpecStats where
  add_assoc := plus_assoc
  zero_add a := by simp only [add_def, plus, zero_def, Nat.zero_add, Nat.zero_max]
  add_zero := plus_empty
  add_comm a b := by simp only [add_def, plus, Nat.add_comm, Nat.max_comm]
  nsmul := nsmulRec

theorem addLeaf_eq (s : SpecStats) : s.addLeaf = s.plus (addLeaf {}) := by
  simp [addLeaf, plus]

theorem addComposite_eq (s : SpecStats) (depth : Nat) :
    s.addComposite depth = s.plus (addComposite {} depth) := by
  simp [addComposite, plus]

theorem addStrategy_eq (s : SpecStats) (strategy : Strategy) :
    s.addStrategy strategy = s.plus (addStrategy {} strategy) := by
  cases strategy <;> simp [addStrategy, plus]

end SpecStats

theorem Build.bucket_eq (e : Element) (s : SpecStats) : bucket e s = s.plus (bucket e {}) := by
  rw [bucket]
  cases e.role <;>
    simp [SpecStats.addLiteral, SpecStats.addSpecial, SpecStats.addComputed, SpecStats.plus]

end Reshape
