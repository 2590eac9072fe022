/-
# Grouping as a function of trees

What a run does to a sheet, said of the tree alone. Of the children of a scope,
`blocks` are those that leave it: the blocks among them, and the blocks right
inside a foreign at-rule, their children enclosed in a copy of it. `rest` is what
stays. `merged` merges blocks by their query lists, and `emission` puts the merged
blocks in the order of the options. A wrapper right below the root is opened, and
whatever wrappers are left then dissolve (`grouped`).
-/

import MediaGrouping.Grouping.Transform
import MediaGrouping.Proofs.Scope.Chain

namespace MediaGrouping
namespace Tree

/-- Whether the top is an at-rule that is grouped. -/
def isMedia (t : Tree) : Bool := t.content.isAtRuleNamed Grouping.mediaName

/-- The query list of a block; a tree whose top is no at-rule has the empty one. -/
def query (t : Tree) : Text :=
  match t.content.atRule? with
  | some r => r.params
  | none => []

/-- The tree with other children. -/
def withChildren (t : Tree) (ts : List Tree) : Tree := .node t.content t.source ts

/-- The tree with more children, and then with a block. -/
def extend (t : Tree) (more : List Tree) : Tree :=
  if more.isEmpty then t else .node t.content.withBlock t.source (t.children ++ more)

/-- The tree with its children in a new block inside it, with the name and
parameters of another at-rule. -/
def enclosed (rule : AtRule) (t : Tree) : Tree :=
  .node t.content.withBlock t.source
    [.node (.atRule { rule with hasBlock := true }) none t.children]

mutual

/-- The tree with the wrappers in it dissolved, or its children if it is one. -/
def spread (o : Options) : Tree → List Tree
  | .node c s cs => if o.wraps c then dissolveAll o cs else [.node c s (dissolveAll o cs)]

/-- Trees with the children of the wrappers among them and below in their places. -/
def dissolveAll (o : Options) : List Tree → List Tree
  | [] => []
  | t :: ts => t.spread o ++ dissolveAll o ts

end

theorem dissolveAll_node (o : Options) (c : Content) (s : Option Position) (cs ts : List Tree) :
    dissolveAll o (.node c s cs :: ts)
      = if o.wraps c then dissolveAll o cs ++ dissolveAll o ts
        else .node c s (dissolveAll o cs) :: dissolveAll o ts := by
  rw [dissolveAll, spread]
  split <;> rfl

end Tree

namespace Grouping

variable (o : Options)

/-- The at-rule that a node is, if it is foreign to blocks. -/
def foreignRule? (c : Content) : Option AtRule :=
  if Scope.foreign o mediaName c then c.atRule? else none

/-- The blocks that leave the scope of a node with a child. -/
def blocksOf (c : Tree) : List Tree :=
  if c.isMedia then [c]
  else match foreignRule? o c.content with
    | some rule => (c.children.filter Tree.isMedia).map (Tree.enclosed rule)
    | none => []

/-- The blocks that leave the scope of a node with these children. -/
def blocks (cs : List Tree) : List Tree := cs.flatMap (blocksOf o)

/-- A child that stays in the scope, without the blocks that leave it. -/
def trimmed (c : Tree) : Tree :=
  match foreignRule? o c.content with
  | some _ => c.withChildren (c.children.filter (!·.isMedia))
  | none => c

/-- What stays of the children of a scope. -/
def rest (cs : List Tree) : List Tree := (cs.filter (!·.isMedia)).map (trimmed o)

/-- Merges a block with those that have its query list. -/
def mergeBlock (r : Registry Tree) (block : Tree) : Registry Tree :=
  r.update block.query fun
    | some t => t.extend block.children
    | none => block

/-- Blocks merged by their query lists, in the order of first arrival. -/
def merged (ts : List Tree) : Registry Tree := ts.foldl mergeBlock []

/-- The values of a registry, by their keys in the order of the options. -/
def sorted {α : Type} (r : Registry α) : List α :=
  (o.sort.sort (Registry.keys r)).filterMap (Registry.find? r)

/-- The merged blocks of a scope with these children, in the order of the options. -/
def emission (cs : List Tree) : List Tree := sorted o (merged (blocks o cs))

/-- A node right below the root; a wrapper is replaced by what stays of its
children and its merged blocks. -/
def opened (c : Tree) : List Tree :=
  if o.wraps c.content then rest o c.children ++ emission o c.children else [c]

/-- The source map annotation at the end of children. -/
def annotationOf (cs : List Tree) : Option Tree :=
  cs.getLast?.filter fun c => isAnnotation c.content

/-- Children without the source map annotation at their end. -/
def body (cs : List Tree) : List Tree :=
  if (annotationOf cs).isSome then cs.dropLast else cs

/-- Children of the root, grouped. -/
def groupedAll (cs : List Tree) : List Tree :=
  Tree.dissolveAll o ((rest o cs).flatMap (opened o) ++ emission o cs)

/-- **A sheet with its blocks grouped.** -/
def grouped (t : Tree) : Tree :=
  t.withChildren (groupedAll o (body t.children) ++ (annotationOf t.children).toList)

end Grouping
end MediaGrouping
