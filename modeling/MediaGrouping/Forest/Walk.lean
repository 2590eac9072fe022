/-
# Walking a forest

The ancestors of a node, nearest first, and the nodes below it in pre-order.
Neither walk can be longer than the forest is large, unless a node is its own
ancestor, so the size of the forest bounds them. The walk downwards looks inside
containers only.
-/

import MediaGrouping.Forest.Basic

namespace MediaGrouping
namespace Forest

/-- At most `limit` ancestors of a node, nearest first. -/
def ancestorsUpTo (f : Forest) : Nat → NodeId → List NodeId
  | 0, _ => []
  | limit + 1, n =>
    match f.parent? n with
    | none => []
    | some p => p :: f.ancestorsUpTo limit p

/-- The ancestors of a node, nearest first. -/
def ancestors (f : Forest) (n : NodeId) : List NodeId := f.ancestorsUpTo f.size n

/-- The nodes at most `limit` levels below a node, in pre-order. -/
def descendantsUpTo (f : Forest) : Nat → NodeId → List NodeId
  | 0, _ => []
  | limit + 1, n =>
    (f.children n).flatMap fun child =>
      child :: if f.holds Content.isContainer child then f.descendantsUpTo limit child else []

/-- The nodes below a node, in pre-order. -/
def descendants (f : Forest) (n : NodeId) : List NodeId := f.descendantsUpTo f.size n

/-- The nodes below a node that satisfy a test, in pre-order. -/
def collect (f : Forest) (test : Content → Bool) (n : NodeId) : List NodeId :=
  (f.descendants n).filter (f.holds test)

/-- The at-rules of a name below a node, in pre-order. -/
def atRulesNamed (f : Forest) (name : Text) (n : NodeId) : List NodeId :=
  f.collect (Content.isAtRuleNamed name) n

end Forest
end MediaGrouping
