import Mathlib.Data.List.Forall2
import Mathlib.Data.List.Sort
import Reshape.Order
import Reshape.Address.Basic
import Reshape.Pattern.Element
/-!
# Sorted lists and the orders of the library

The comparisons of siblings and of addresses are total and transitive, so sorting by them puts
lists in order.
-/
namespace Reshape

variable {α : Type}

theorem insertBy_eq_orderedInsert (cmp : α → α → Ordering) (x : α) (ys : List α) :
    insertBy cmp x ys = ys.orderedInsert (fun a b => (cmp a b).isLE) x := by
  induction ys with
  | nil => rfl
  | cons y ys ih =>
    rw [insertBy, List.orderedInsert_cons, ih]
    cases cmp x y <;> rfl

/-- Sorting by a comparison is insertion sort by the order that it decides. -/
theorem sortBy_eq_insertionSort (cmp : α → α → Ordering) (xs : List α) :
    sortBy cmp xs = xs.insertionSort fun a b => (cmp a b).isLE := by
  induction xs with
  | nil => rfl
  | cons x xs ih =>
    rw [List.insertionSort_cons, ← ih]
    exact insertBy_eq_orderedInsert cmp x (sortBy cmp xs)

theorem sortBy_perm (cmp : α → α → Ordering) (xs : List α) : (sortBy cmp xs).Perm xs := by
  rw [sortBy_eq_insertionSort]
  exact List.perm_insertionSort _ xs

/-- Sorting puts no element before one that it comes after. -/
theorem sortBy_pairwise (cmp : α → α → Ordering) [Std.TransCmp cmp] (xs : List α) :
    (sortBy cmp xs).Pairwise fun a b => (cmp a b).isLE := by
  have htotal : Std.Total fun a b => (cmp a b).isLE = true := by
    refine ⟨fun a b => ?_⟩
    have hswap : cmp b a = (cmp a b).swap := Std.OrientedCmp.eq_swap
    rw [hswap]
    cases cmp a b <;> decide
  have htrans : IsTrans α fun a b => (cmp a b).isLE = true :=
    ⟨fun _ _ _ => Std.TransCmp.isLE_trans⟩
  rw [sortBy_eq_insertionSort]
  exact List.pairwise_insertionSort _ xs

/-- Comparing images compares as the comparison of the images does. -/
theorem transCmp_on {β : Type} (cmp : β → β → Ordering) [Std.TransCmp cmp] (f : α → β) :
    Std.TransCmp fun a b => cmp (f a) (f b) where
  eq_swap := Std.OrientedCmp.eq_swap
  isLE_trans := Std.TransCmp.isLE_trans

section Alike

variable {β : Type} {R : α → β → Prop} {cmp : α → α → Ordering} {cmp' : β → β → Ordering}

theorem insertBy_rel (hcmp : ∀ a b c d, R a b → R c d → cmp a c = cmp' b d) {a : α} {b : β}
    (hab : R a b) {xs : List α} {ys : List β} (h : List.Forall₂ R xs ys) :
    List.Forall₂ R (insertBy cmp a xs) (insertBy cmp' b ys) := by
  induction h with
  | nil => exact .cons hab .nil
  | cons hxy hrest ih =>
    rw [insertBy, insertBy, hcmp _ _ _ _ hab hxy]
    split
    · exact .cons hxy ih
    · exact .cons hab (.cons hxy hrest)

/-- Lists that compare alike are sorted alike. -/
theorem sortBy_rel (hcmp : ∀ a b c d, R a b → R c d → cmp a c = cmp' b d) {xs : List α}
    {ys : List β} (h : List.Forall₂ R xs ys) : List.Forall₂ R (sortBy cmp xs) (sortBy cmp' ys) := by
  induction h with
  | nil => exact .nil
  | cons hxy _ ih => exact insertBy_rel hcmp hxy ih

end Alike

/-! ## Stability -/

theorem insertBy_filter {cmp : α → α → Ordering} {p : α → Bool} {x : α} {ys : List α}
    (h : ∀ y ∈ ys, p x → p y → cmp x y ≠ .gt) :
    (insertBy cmp x ys).filter p = (x :: ys).filter p := by
  induction ys with
  | nil => rfl
  | cons y ys ih =>
    obtain ⟨hy, hys⟩ := List.forall_mem_cons.mp h
    rw [insertBy]
    split
    · -- An element only moves behind one that is not kept together with it.
      rename_i hgt
      by_cases hx : p x
      · have hapart : ¬ p y := fun hpy => hy hx hpy (beq_iff_eq.mp hgt)
        rw [List.filter_cons_of_neg hapart, ih hys, List.filter_cons_of_pos hx,
          List.filter_cons_of_pos hx, List.filter_cons_of_neg hapart]
      · rw [List.filter_cons_of_neg hx, List.filter_cons, ih hys, List.filter_cons_of_neg hx,
          List.filter_cons]
    · rfl

/-- Sorting does not rearrange elements that compare equal. -/
theorem sortBy_filter {cmp : α → α → Ordering} {p : α → Bool} {xs : List α}
    (h : ∀ x ∈ xs, ∀ y ∈ xs, p x → p y → cmp x y ≠ .gt) :
    (sortBy cmp xs).filter p = xs.filter p := by
  induction xs with
  | nil => rfl
  | cons x xs ih =>
    have hrest := ih fun y hy z hz =>
      h y (List.mem_cons_of_mem x hy) z (List.mem_cons_of_mem x hz)
    have hfirst : ∀ y ∈ sortBy cmp xs, p x → p y → cmp x y ≠ .gt := fun y hy =>
      h x List.mem_cons_self y (List.mem_cons_of_mem x ((sortBy_perm cmp xs).mem_iff.mp hy))
    change (insertBy cmp x (sortBy cmp xs)).filter p = _
    rw [insertBy_filter hfirst, List.filter_cons, hrest, List.filter_cons]

open Pattern (Element)

/-- Precedence is the lexicographic order of rank, length and canonical form. -/
theorem Pattern.Element.comparePrecedence_eq :
    Element.comparePrecedence = compareLex (compareOn Element.rank)
      (compareLex (fun a b => compareOn (fun e : Element => e.canonical.utf8ByteSize) b a)
        (compareOn Element.canonical)) := by
  funext a b
  rfl

instance : Std.TransCmp Element.comparePrecedence := by
  have : Std.TransCmp fun a b : Element =>
      compareOn (fun e : Element => e.canonical.utf8ByteSize) b a := Std.TransCmp.opposite
  rw [Element.comparePrecedence_eq]
  infer_instance

instance : Std.TransCmp Step.compare where
  eq_swap {a b} := by
    cases a <;> cases b <;> simp [Step.compare]
    · exact Std.OrientedCmp.eq_swap
    · exact Std.OrientedCmp.eq_swap
  isLE_trans {a b c} := by
    cases a <;> cases b <;> cases c <;> simp [Step.compare]
    · exact Std.TransCmp.isLE_trans
    · exact Std.TransCmp.isLE_trans

instance : Std.LawfulEqCmp Step.compare where
  eq_of_compare {a b} := by
    cases a <;> cases b <;> simp [Step.compare]

theorem Address.compare_eq : Address.compare = List.compareLex Step.compare := by
  funext a b
  induction a generalizing b with
  | nil => cases b <;> rfl
  | cons s as ih =>
    cases b with
    | nil => rfl
    | cons t bs =>
      rw [Address.compare, List.compareLex_cons_cons, ih]

instance : Std.TransCmp Address.compare := by
  rw [Address.compare_eq]
  infer_instance

instance : Std.LawfulEqCmp Address.compare := by
  rw [Address.compare_eq]
  infer_instance

end Reshape
