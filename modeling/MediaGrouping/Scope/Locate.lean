/-
# Where a block belongs

A block belongs to the scope of the nearest root or wrapper above it, its
anchor. Between the two at most one other node may stand, directly above the
block: a foreign at-rule, which is neither a wrapper nor an at-rule of the
block's own name. Any other node in between, or above the anchor, leaves the
block too deep to be moved, and a wrapper above the anchor is nested.

The ancestors are judged from the block upwards, and the first obstacle counts.
-/

import MediaGrouping.Forest.Walk
import MediaGrouping.Options.Basic

namespace MediaGrouping

/-- Why a block cannot be moved. -/
inductive Obstacle where
  | tooDeep
  /-- A wrapper above the anchor. -/
  | nested (wrapper : NodeId)
  deriving DecidableEq

/-- What stands above a block that can be moved. -/
structure Place where
  /-- The nearest root or wrapper, if there is one. -/
  anchor : Option NodeId
  /-- The at-rule between the anchor and the block. -/
  foreign : Option NodeId
  deriving DecidableEq

namespace Scope

/-- Whether a node is a wrapper. -/
def isWrapper (o : Options) (f : Forest) (n : NodeId) : Bool := f.holds o.isWrapper n

/-- Whether a node bounds a scope. -/
def isScope (o : Options) (f : Forest) (n : NodeId) : Bool :=
  f.holds Content.isRoot n || isWrapper o f n

/-- Whether a node is an at-rule of a name other than the block's, and bounds no scope. -/
def isForeign (o : Options) (blockName : Text) (f : Forest) (n : NodeId) : Bool :=
  !isScope o f n && (f.atRule? n).any (·.name != blockName)

/-- The anchor among ancestors, nearest first, given the anchor found so far. -/
def climb (o : Options) (f : Forest) : Option NodeId → List NodeId → Except Obstacle (Option NodeId)
  | anchor, [] => .ok anchor
  | anchor, n :: above =>
    if isScope o f n then
      match anchor with
      | none => climb o f (some n) above
      | some a => if isWrapper o f n then .error (.nested n) else climb o f (some a) above
    else .error .tooDeep

/-- The place of a block whose ancestors, nearest first, are given. -/
def locateBelow (o : Options) (blockName : Text) (f : Forest) :
    List NodeId → Except Obstacle Place
  | [] => .ok ⟨none, none⟩
  | n :: above =>
    if isForeign o blockName f n then (climb o f none above).map (⟨·, some n⟩)
    else (climb o f none (n :: above)).map (⟨·, none⟩)

/-- The place of a block. -/
def locate (o : Options) (blockName : Text) (f : Forest) (block : NodeId) :
    Except Obstacle Place :=
  locateBelow o blockName f (f.ancestors block)

end Scope
end MediaGrouping
