/-
# Merging blocks

A group collects the blocks of one scope, merged by the exact text of their
query lists, in the order in which the texts were first found. What it keeps are
copies: the first block with a text is copied whole, and of the later ones the
children are copied to its end. Every block taken in leaves its place.
-/

import MediaGrouping.Forest.Edit
import MediaGrouping.Forest.Tree
import MediaGrouping.Registry
import MediaGrouping.Scope.Resolve

namespace MediaGrouping

/-- What bounds the scope of a group. -/
inductive GroupKind where
  | root
  | wrapper
  deriving DecidableEq

/-- The merged blocks of a scope, by query text. -/
structure Group where
  id : GroupId
  anchor : NodeId
  kind : GroupKind
  merged : Registry NodeId

namespace Group

/-- The query text of a block; a node that is no at-rule has the empty one. -/
def queryOf (f : Forest) (block : NodeId) : Text :=
  match f.atRule? block with
  | some r => r.params
  | none => []

/-- Appends copies of nodes, one after the other. -/
def appendCopies (f : Forest) (target : NodeId) : List NodeId → Forest
  | [] => f
  | n :: rest =>
    let (copied, f) := f.copy n
    appendCopies (f.append target copied) target rest

/-- Takes a block in, and out of its place. -/
def absorb (g : Group) (f : Forest) (block : NodeId) : Group × Forest :=
  let query := queryOf f block
  match Registry.find? g.merged query with
  | some target => (g, (appendCopies f target (f.children block)).detach block)
  | none =>
    let (copied, f) := f.copy block
    ({ g with merged := g.merged ++ [(query, copied)] }, f.detach block)

end Group

/-- The groups so far, by ascending number, and how many blocks they took in. -/
structure Aggregator where
  groups : List Group
  captured : Nat

namespace Aggregator

/-- The aggregator before the first block. -/
def start : Aggregator := ⟨[], 0⟩

/-- The group of a number. -/
def group? (a : Aggregator) (id : GroupId) : Option Group := a.groups.find? (·.id == id)

/-- Puts a group in its place among groups with ascending numbers, instead of
the one with the same number if there is one. -/
def place (g : Group) : List Group → List Group
  | [] => [g]
  | h :: rest =>
    if g.id < h.id then g :: h :: rest
    else if g.id = h.id then g :: rest
    else h :: place g rest

/-- Merges a block into the group of a number. The anchor and the kind count
only if there is no such group yet. -/
def aggregate (a : Aggregator) (f : Forest) (id : GroupId) (anchor : NodeId) (kind : GroupKind)
    (block : NodeId) : Aggregator × Forest :=
  let group := (a.group? id).getD ⟨id, anchor, kind, []⟩
  let (group, f) := group.absorb f block
  (⟨place group a.groups, a.captured + 1⟩, f)

end Aggregator
end MediaGrouping
