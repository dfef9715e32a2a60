/-!
# Sorting

A stable sort by a comparison: elements that compare equal keep their order.
-/
namespace Reshape

variable {α : Type}

/-- Put an element in front of the first one that it does not come after. -/
def insertBy (cmp : α → α → Ordering) (x : α) : List α → List α
  | [] => [x]
  | y :: ys => if cmp x y == .gt then y :: insertBy cmp x ys else x :: y :: ys

def sortBy (cmp : α → α → Ordering) (xs : List α) : List α := xs.foldr (insertBy cmp) []

end Reshape
