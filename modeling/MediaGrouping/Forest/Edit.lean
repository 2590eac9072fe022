/-
# Moving nodes

Every operation that gives a node a parent takes it out of its former one first,
so that a node is the child of at most one node, once, and exactly of the one it
names as its parent. Appending marks an at-rule as having a block; inserting at
a place does not.
-/

import MediaGrouping.Forest.Basic

namespace MediaGrouping
namespace Forest

/-- Changes the link to the parent. -/
def setParent (f : Forest) (n : NodeId) (parent : Option NodeId) : Forest :=
  f.modify n fun e => { e with parent := parent }

/-- Changes the list of children. -/
def setChildren (f : Forest) (n : NodeId) (children : List NodeId) : Forest :=
  f.modify n fun e => { e with children := children }

/-- The place of a node among the children of another. -/
def indexOf? (f : Forest) (parent child : NodeId) : Option Nat := (f.children parent).idxOf? child

/-- Takes a node out of its parent, if it has one. -/
def detach (f : Forest) (n : NodeId) : Forest :=
  match f.parent? n with
  | none => f
  | some p =>
    if n ∈ f.children p then
      (f.setChildren p ((f.children p).erase n)).setParent n none
    else f

/-- Makes `child` the last child of `parent`. -/
def append (f : Forest) (parent child : NodeId) : Forest :=
  let f := (f.detach child).setParent child (some parent)
  f.modify parent fun e =>
    { e with content := e.content.withBlock, children := e.children ++ [child] }

/-- Appends nodes one after the other. -/
def appendAll (f : Forest) (parent : NodeId) (children : List NodeId) : Forest :=
  children.foldl (fun f child => f.append parent child) f

/-- Makes `child` the child of `parent` at a place, or the last one if there is
no such place. The place counts after the child has left its former parent. -/
def insert (f : Forest) (parent : NodeId) (index : Nat) (child : NodeId) : Forest :=
  let f := (f.detach child).setParent child (some parent)
  f.modify parent fun e =>
    { e with children := e.children.take index ++ child :: e.children.drop index }

/-- Takes out the child at a place, if there is one. -/
def removeAt? (f : Forest) (parent : NodeId) (index : Nat) : Option (NodeId × Forest) :=
  (f.children parent)[index]?.map fun child =>
    (child, (f.setChildren parent ((f.children parent).eraseIdx index)).setParent child none)

/-- Takes out all children. -/
def detachChildren (f : Forest) (parent : NodeId) : List NodeId × Forest :=
  let children := f.children parent
  (children, children.foldl (fun f child => f.setParent child none) (f.setChildren parent []))

/-- Inserts nodes into `parent`, in their order, right before its child `node`,
and stops once `node` has been moved away. -/
def insertAllBefore (f : Forest) (parent node : NodeId) : List NodeId → Forest
  | [] => f
  | child :: rest =>
    let f := f.detach child
    match f.indexOf? parent node with
    | none => f
    | some index => insertAllBefore (f.insert parent index child) parent node rest

/-- Inserts nodes, in their order, right before `node` in its parent. Nothing
happens if `node` has none. -/
def insertBefore (f : Forest) (node : NodeId) (children : List NodeId) : Forest :=
  match f.parent? node with
  | none => f
  | some parent => f.insertAllBefore parent node children

/-- Replaces a node by its children. Nothing happens if it has no parent. -/
def unwrap (f : Forest) (n : NodeId) : Forest :=
  match f.parent? n with
  | none => f
  | some _ =>
    let (children, f) := f.detachChildren n
    (f.insertBefore n children).detach n

end Forest
end MediaGrouping
