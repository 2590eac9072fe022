/-
# Trees in a forest

A tree is planted by giving its nodes the next free numbers, in pre-order; the
nodes already there are left alone. In the other direction, the tree of a node
is read off its links. A copy of a node is the tree of the node, planted again.
-/

import MediaGrouping.Forest.Basic
import MediaGrouping.Sheet.Printer

namespace MediaGrouping

namespace Tree

mutual

/-- How many nodes a tree has. -/
def size : Tree → Nat
  | .node _ _ children => 1 + sizeAll children

/-- How many nodes several trees have. -/
def sizeAll : List Tree → Nat
  | [] => 0
  | t :: ts => t.size + sizeAll ts

end

/-- The numbers of the top nodes of trees that are planted from `first` on. -/
def tops (first : NodeId) : List Tree → List NodeId
  | [] => []
  | t :: ts => first :: tops (first + t.size) ts

mutual

/-- The nodes of a tree that is planted from `first` on. -/
def entries (parent : Option NodeId) (first : NodeId) : Tree → List Entry
  | .node content source children =>
    ⟨content, source, parent, tops (first + 1) children⟩
      :: entriesAll (some first) (first + 1) children

/-- The nodes of trees that are planted one after the other. -/
def entriesAll (parent : Option NodeId) (first : NodeId) : List Tree → List Entry
  | [] => []
  | t :: ts => t.entries parent first ++ entriesAll parent (first + t.size) ts

end

end Tree

namespace Forest

/-- Plants a tree; gives the number of its top node. -/
def plant (f : Forest) (t : Tree) : NodeId × Forest :=
  (f.size, ⟨f.entries ++ (t.entries none f.size).toArray⟩)

/-- The tree of a node, down to `limit` levels. -/
def treeUpTo (f : Forest) : Nat → NodeId → Option Tree
  | 0, _ => none
  | limit + 1, n =>
    (f.get? n).map fun e => .node e.content e.source (e.children.filterMap (f.treeUpTo limit))

/-- The tree of a node, if there is such a node. -/
def tree? (f : Forest) (n : NodeId) : Option Tree := f.treeUpTo f.size n

/-- The tree of a node; of a number without a node, the empty sheet. -/
def tree (f : Forest) (n : NodeId) : Tree := (f.tree? n).getD (.node .root none [])

/-- Copies a node and everything below it; gives the number of the copy, which
has no parent. -/
def copy (f : Forest) (n : NodeId) : NodeId × Forest := f.plant (f.tree n)

/-- A node as written on its own. -/
def css (f : Forest) (n : NodeId) : Text := (f.tree n).css

/-- **Planting leaves the nodes of the forest alone.** -/
theorem get?_plant {f : Forest} (t : Tree) {n : NodeId} (h : n < f.size) :
    (f.plant t).2.get? n = f.get? n := by
  unfold plant get?
  exact Array.getElem?_append_left h

end Forest
end MediaGrouping
