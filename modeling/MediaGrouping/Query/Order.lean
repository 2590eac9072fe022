/-
# The order of query lists

Query lists are ordered by how little they ask for, in `min-width`. An
alternative counts with its most restrictive test, and a list with its least
restrictive alternative. Negated and print alternatives, and those without a
`min-width`, have no bound and come after every finite width. All sorting is
stable.
-/

import MediaGrouping.Query.Expression
import MediaGrouping.Query.Length

namespace MediaGrouping

namespace Expression

/-- The largest of the sizes, unbounded if there are none. -/
def largestSize : List Binary64 → Binary64
  | [] => Length.unbounded
  | x :: xs => xs.foldl Binary64.larger x

/-- The width an alternative asks for. -/
def widthKey (e : Expression) : Binary64 :=
  if Registry.has e "not".toList || Registry.has e "print".toList then Length.unbounded
  else
    match Registry.find? e "min-width".toList with
    | none => Length.unbounded
    | some feature => largestSize (feature.tested.map Length.pixelSize)

/-- The width a list of alternatives asks for. -/
def minWidthKey (list : List Expression) : Binary64 :=
  (list.map widthKey).foldl Binary64.smaller Length.unbounded

end Expression

/-- How query lists are ordered. -/
inductive SortPolicy where
  /-- As they were found. -/
  | preserve
  /-- By the width they ask for, the smallest first. -/
  | minWidth
  /-- By a comparison of their texts. -/
  | custom (compare : Text → Text → Ordering)

/-- The width that a query list asks for. -/
def queryKey (t : Text) : Binary64 := Expression.minWidthKey (Expression.ofQueryList t)

namespace SortPolicy

/-- Whether one query list may stand before another. -/
def mayPrecede : SortPolicy → Text → Text → Bool
  | .preserve, _, _ => true
  | .minWidth, a, b => !(queryKey b).lt (queryKey a)
  | .custom compare, a, b => compare a b != .gt

/-- The query lists in the order of the policy. Lists that may precede each
other stay as they are, so a policy under which any may precede any changes
nothing. -/
def sort (policy : SortPolicy) (lists : List Text) : List Text :=
  lists.mergeSort policy.mayPrecede

/-- The name of the policy. -/
def description : SortPolicy → String
  | .preserve => "Preserve"
  | .minWidth => "MinWidth"
  | .custom _ => "Custom(..)"

end SortPolicy
end MediaGrouping
