/-
# Sorting query lists

Under every policy, query lists that may precede each other form a total preorder,
given that the comparison of a custom policy is one (`SortPolicy.IsPreorder`). What
is sorted therefore stays as it is when it is sorted again (`SortPolicy.sort_sort`).
-/

import MediaGrouping.Query.Order

namespace MediaGrouping
namespace SortPolicy

/-- The comparison of a custom policy is a total preorder. -/
def IsPreorder : SortPolicy → Prop
  | .preserve | .minWidth => True
  | .custom compare => Std.TransCmp compare

variable {policy : SortPolicy}

theorem mayPrecede_minWidth {a b : Text} :
    mayPrecede .minWidth a b = true ↔ (queryKey a).rank ≤ (queryKey b).rank := by
  rw [mayPrecede, Binary64.lt, Bool.not_eq_true', decide_eq_false_iff_not, Int.not_lt]

theorem mayPrecede_custom {compare : Text → Text → Ordering} {a b : Text} :
    mayPrecede (.custom compare) a b = (compare a b).isLE := Ordering.isLE_eq_not_beq_gt.symm

theorem mayPrecede_trans (h : policy.IsPreorder) (a b c : Text) (hab : policy.mayPrecede a b = true)
    (hbc : policy.mayPrecede b c = true) : policy.mayPrecede a c = true := by
  cases policy with
  | preserve => rfl
  | minWidth =>
    rw [mayPrecede_minWidth] at hab hbc ⊢
    exact Int.le_trans hab hbc
  | custom compare =>
    have : Std.TransCmp compare := h
    rw [mayPrecede_custom] at hab hbc ⊢
    exact Std.TransCmp.isLE_trans hab hbc

theorem mayPrecede_total (h : policy.IsPreorder) (a b : Text) :
    (policy.mayPrecede a b || policy.mayPrecede b a) = true := by
  rw [Bool.or_eq_true]
  cases policy with
  | preserve => exact Or.inl rfl
  | minWidth =>
    rw [mayPrecede_minWidth, mayPrecede_minWidth]
    exact Int.le_total _ _
  | custom compare =>
    have : Std.TransCmp compare := h
    have hswap : compare a b = (compare b a).swap := Std.OrientedCmp.eq_swap
    rw [mayPrecede_custom, mayPrecede_custom, hswap]
    cases compare b a <;> decide

/-- **Sorting again changes nothing.** -/
theorem sort_sort (h : policy.IsPreorder) (lists : List Text) :
    policy.sort (policy.sort lists) = policy.sort lists :=
  List.mergeSort_of_pairwise
    (List.pairwise_mergeSort (mayPrecede_trans h) (mayPrecede_total h) lists)

end SortPolicy
end MediaGrouping
