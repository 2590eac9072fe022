/-
# Forests of linked nodes

A forest keeps every node ever made under a number of its own. A node knows its
parent and its children, so that it can be found from above and from below;
both links are kept together by the operations of `MediaGrouping.Forest.Edit`.
A node that is taken out of its tree stays in the forest, without a parent.
-/

import MediaGrouping.Sheet.Content

namespace MediaGrouping

/-- The number of a node. -/
abbrev NodeId := Nat

/-- A node of a forest. -/
structure Entry where
  content : Content
  source : Option Position
  parent : Option NodeId
  children : List NodeId
  deriving DecidableEq

/-- Nodes by number. -/
structure Forest where
  entries : Array Entry

namespace Forest

/-- The forest without nodes. -/
def empty : Forest := ⟨#[]⟩

/-- How many nodes there are, and so the number of the next one. -/
def size (f : Forest) : Nat := f.entries.size

/-- The node of a number. -/
def get? (f : Forest) (n : NodeId) : Option Entry := f.entries[n]?

/-- What a node is. -/
def content? (f : Forest) (n : NodeId) : Option Content := (f.get? n).map Entry.content

/-- Where a node was read. -/
def source? (f : Forest) (n : NodeId) : Option Position := (f.get? n).bind Entry.source

/-- The parent of a node. -/
def parent? (f : Forest) (n : NodeId) : Option NodeId := (f.get? n).bind Entry.parent

/-- The children of a node. -/
def children (f : Forest) (n : NodeId) : List NodeId :=
  match f.get? n with
  | some e => e.children
  | none => []

/-- Whether a node satisfies a test of what it is. -/
def holds (f : Forest) (test : Content → Bool) (n : NodeId) : Bool := (f.content? n).any test

/-- The at-rule that a node is. -/
def atRule? (f : Forest) (n : NodeId) : Option AtRule := (f.content? n).bind Content.atRule?

/-- Changes the node of a number. -/
def modify (f : Forest) (n : NodeId) (change : Entry → Entry) : Forest :=
  ⟨f.entries.modify n change⟩

/-- A new node without parent, children or position, and its number. -/
def create (f : Forest) (content : Content) : NodeId × Forest :=
  (f.size, ⟨f.entries.push ⟨content, none, none, []⟩⟩)

/-- Changes what a node is. -/
def setContent (f : Forest) (n : NodeId) (content : Content) : Forest :=
  f.modify n fun e => { e with content := content }

/-- Changes where a node was read. -/
def setSource (f : Forest) (n : NodeId) (source : Option Position) : Forest :=
  f.modify n fun e => { e with source := source }

/-- **A change is seen in its own node and in no other.** -/
theorem get?_modify (f : Forest) (n : NodeId) (change : Entry → Entry) (m : NodeId) :
    (f.modify n change).get? m = if n = m then (f.get? m).map change else f.get? m :=
  Array.getElem?_modify

@[simp] theorem size_modify (f : Forest) (n : NodeId) (change : Entry → Entry) :
    (f.modify n change).size = f.size := Array.size_modify

/-- **A new node leaves the others alone.** -/
theorem get?_create (f : Forest) (content : Content) (m : NodeId) :
    (f.create content).2.get? m =
      if m = f.size then some ⟨content, none, none, []⟩ else f.get? m :=
  Array.getElem?_push

end Forest
end MediaGrouping
