/-
# Resolving blocks into groups

Every scope has a group: the root's has the number 1, and the wrappers' count up
from 2 in the order in which a block was first found in them. Resolving a block
tells its group; if a foreign at-rule stands above the block, the block's
children are moved into a copy of that at-rule inside the block, so that its
condition is kept when the block leaves it. A block that cannot be moved is left
as it is: one that is too deep is told to be, and one below a nested wrapper is
refused, with what the resolver and the forest are then.
-/

import MediaGrouping.Forest.Edit
import MediaGrouping.Scope.Locate

namespace MediaGrouping

/-- The number of a group. -/
abbrev GroupId := Nat

/-- A wrapper inside another wrapper: its name and parameters, and its position
if it has one. A wrapper that is no at-rule is named by its type. -/
structure NestedWrapper where
  name : Text
  params : Text
  source : Option Position
  deriving DecidableEq

namespace NestedWrapper

/-- The error for a wrapper of a forest. -/
def ofNode (f : Forest) (n : NodeId) : NestedWrapper :=
  match f.atRule? n with
  | some r => ⟨r.name, r.params, f.source? n⟩
  | none => ⟨((f.content? n).map Content.typeName).getD [], [], f.source? n⟩

/-- The text of the error, headed by the position if there is one. -/
def message (e : NestedWrapper) : String :=
  let location := match e.source with
    | some p => p.describe ++ ": "
    | none => ""
  location ++ "nested `@" ++ String.ofList e.name ++ "` rules are not supported"

end NestedWrapper

/-- Where a block belongs. -/
inductive Resolution where
  | rootGroup
  | wrapperGroup (id : GroupId) (anchor : NodeId)
  /-- It stays where it is. -/
  | tooDeep
  deriving DecidableEq

/-- The wrappers that have a group, in the order of their numbers. -/
structure Resolver where
  anchors : List NodeId

namespace Resolver

/-- A block that was not resolved: the wrapper that is nested, and the resolver and
the forest as they are then. -/
structure Refusal where
  wrapper : NestedWrapper
  resolver : Resolver
  forest : Forest

/-- A refusal is reported as the wrapper that is nested. -/
instance : Coe Refusal NestedWrapper := ⟨Refusal.wrapper⟩

/-- The number of the root's group. -/
def rootGroupId : GroupId := 1

/-- The resolver before the first block. -/
def start : Resolver := ⟨[]⟩

/-- The number of a wrapper's group; a new wrapper gets the next one. -/
def groupId (r : Resolver) (anchor : NodeId) : GroupId × Resolver :=
  match r.anchors.idxOf? anchor with
  | some index => (rootGroupId + 1 + index, r)
  | none => (rootGroupId + 1 + r.anchors.length, ⟨r.anchors ++ [anchor]⟩)

/-- Moves the children of a block into a new block at-rule inside it, with the
name and parameters of another at-rule. -/
def enclose (f : Forest) (block : NodeId) (rule : AtRule) : Forest :=
  let (inner, f) := f.create (.atRule { rule with hasBlock := true })
  let (children, f) := f.detachChildren block
  (f.appendAll inner children).append block inner

/-- The forest once a block has been made ready to leave its place. -/
def prepare (f : Forest) (block : NodeId) (place : Place) : Forest :=
  match place.foreign.bind f.atRule? with
  | some rule => enclose f block rule
  | none => f

/-- The group of an anchor, and the resolver that knows it. -/
def assign (r : Resolver) (f : Forest) (place : Place) : Resolution × Resolver :=
  match place.anchor with
  | none => (.rootGroup, r)
  | some anchor =>
    if f.holds Content.isRoot anchor then (.rootGroup, r)
    else
      let (id, r) := r.groupId anchor
      (.wrapperGroup id anchor, r)

/-- Resolves a block of a name. -/
def resolve (o : Options) (blockName : Text) (r : Resolver) (f : Forest) (block : NodeId) :
    Except Refusal (Resolution × Resolver × Forest) :=
  match Scope.locate o blockName f block with
  | .error .tooDeep => .ok (.tooDeep, r, f)
  | .error (.nested wrapper) => .error ⟨.ofNode f wrapper, r, f⟩
  | .ok place =>
    let (resolution, r) := r.assign f place
    .ok (resolution, r, prepare f block place)

/-- **A refusal changes nothing**: the resolver and the forest are what they were. -/
theorem unchanged_of_refusal {o : Options} {blockName : Text} {r : Resolver} {f : Forest}
    {block : NodeId} {e : Refusal} (h : r.resolve o blockName f block = .error e) :
    e.resolver = r ∧ e.forest = f := by
  rw [resolve] at h
  split at h
  · cases h
  · cases h
    exact ⟨rfl, rfl⟩
  · cases h

end Resolver
end MediaGrouping
