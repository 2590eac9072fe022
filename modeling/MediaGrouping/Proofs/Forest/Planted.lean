/-
# Planted trees

A planted tree is a tree whose nodes carry their numbers, as a forest keeps
them. Its sites are its nodes in pre-order, each with the labels above it, the
nearest first; whatever is said about a node of a tree in a forest is said about
a site.

Three changes are made to planted trees: branches are cut off (`prune`), a
branch is added as the last child of a node (`graft`), and nodes are replaced by
their children (`dissolve`). Each comes with the sites of the changed tree, in
terms of the sites of the tree as it was (`sitesAll_pruneAll`, `sites_graft`,
`sitesAll_dissolveAll`).
-/

import MediaGrouping.Forest.Tree
import Mathlib.Data.List.Nodup

namespace MediaGrouping

/-- What a node is and where it was read, and its number. -/
structure Label where
  id : NodeId
  content : Content
  source : Option Position
  deriving DecidableEq

/-- A tree whose nodes have numbers. -/
inductive Planted where
  | node (label : Label) (children : List Planted)

/-- A node of a planted tree: the labels above it, the nearest first, and the
branch that begins with it. -/
structure Site where
  above : List Label
  here : Planted

namespace Label

/-- The label once the node with the number `n` has been given a child. -/
def grow (n : NodeId) (l : Label) : Label :=
  if l.id = n then { l with content := l.content.withBlock } else l

@[simp] theorem id_grow (n : NodeId) (l : Label) : (l.grow n).id = l.id := by
  unfold grow; split_ifs <;> rfl

@[simp] theorem source_grow (n : NodeId) (l : Label) : (l.grow n).source = l.source := by
  unfold grow; split_ifs <;> rfl

theorem grow_of_ne {n : NodeId} {l : Label} (h : l.id ≠ n) : l.grow n = l := if_neg h

end Label

namespace Planted

/-- The label of the top node. -/
def label : Planted → Label
  | .node l _ => l

/-- The branches below the top node. -/
def children : Planted → List Planted
  | .node _ cs => cs

/-- The number of the top node. -/
def id (t : Planted) : NodeId := t.label.id

/-- What the top node is. -/
def content (t : Planted) : Content := t.label.content

@[simp] theorem label_node (l : Label) (cs : List Planted) : (node l cs).label = l := rfl

@[simp] theorem children_node (l : Label) (cs : List Planted) : (node l cs).children = cs := rfl

@[simp] theorem id_node (l : Label) (cs : List Planted) : (node l cs).id = l.id := rfl

@[simp] theorem id_label (t : Planted) : t.label.id = t.id := rfl

@[simp] theorem content_node (l : Label) (cs : List Planted) : (node l cs).content = l.content :=
  rfl

mutual

/-- The tree without its numbers. -/
def tree : Planted → Tree
  | .node l cs => .node l.content l.source (trees cs)

/-- Trees without their numbers. -/
def trees : List Planted → List Tree
  | [] => []
  | t :: ts => t.tree :: trees ts

end

mutual

/-- The nodes of a tree below `above`, in pre-order. -/
def sites (above : List Label) : Planted → List Site
  | .node l cs => ⟨above, .node l cs⟩ :: sitesAll (l :: above) cs

/-- The nodes of several trees below `above`, in pre-order. -/
def sitesAll (above : List Label) : List Planted → List Site
  | [] => []
  | t :: ts => t.sites above ++ sitesAll above ts

end

/-- The nodes below the top node, in pre-order. -/
def inner (t : Planted) : List Site := sitesAll [t.label] t.children

mutual

/-- The numbers of a tree, in pre-order. -/
def ids : Planted → List NodeId
  | .node l cs => l.id :: idsAll cs

/-- The numbers of several trees, in pre-order. -/
def idsAll : List Planted → List NodeId
  | [] => []
  | t :: ts => t.ids ++ idsAll ts

end

mutual

/-- The number of levels of a tree. -/
def height : Planted → Nat
  | .node _ cs => heightAll cs + 1

/-- The largest number of levels among trees. -/
def heightAll : List Planted → Nat
  | [] => 0
  | t :: ts => max t.height (heightAll ts)

end

mutual

/-- The tree without the branches that begin with a number to be cut. -/
def prune (cut : NodeId → Bool) : Planted → Planted
  | .node l cs => .node l (pruneAll cut cs)

/-- Trees without the branches that begin with a number to be cut. -/
def pruneAll (cut : NodeId → Bool) : List Planted → List Planted
  | [] => []
  | t :: ts => if cut t.id then pruneAll cut ts else t.prune cut :: pruneAll cut ts

end

mutual

/-- The tree with `branch` as the last child of the node with the number `n`. -/
def graft (n : NodeId) : Planted → Planted → Planted
  | .node l cs, branch =>
    .node (l.grow n) (graftAll n cs branch ++ if l.id = n then [branch] else [])

/-- Trees with `branch` as the last child of the node with the number `n`. -/
def graftAll (n : NodeId) : List Planted → Planted → List Planted
  | [], _ => []
  | t :: ts, branch => t.graft n branch :: graftAll n ts branch

end

mutual

/-- The tree with some nodes in it dissolved, or its children if its top is one. -/
def spread (gone : NodeId → Bool) : Planted → List Planted
  | .node l cs => if gone l.id then dissolveAll gone cs else [.node l (dissolveAll gone cs)]

/-- Trees with the children of some nodes in their places. -/
def dissolveAll (gone : NodeId → Bool) : List Planted → List Planted
  | [] => []
  | t :: ts => t.spread gone ++ dissolveAll gone ts

end

/-- The tree with the children of some nodes below its top in their places. -/
def dissolve (gone : NodeId → Bool) : Planted → Planted
  | .node l cs => .node l (dissolveAll gone cs)

end Planted

namespace Site

/-- The number of a site's node. -/
def id (x : Site) : NodeId := x.here.id

@[simp] theorem id_here (x : Site) : x.here.id = x.id := rfl

@[simp] theorem id_mk (above : List Label) (t : Planted) : (Site.mk above t).id = t.id := rfl

/-- The site below more labels. -/
def under (x : Site) (more : List Label) : Site := ⟨x.above ++ more, x.here⟩

@[simp] theorem id_under (x : Site) (more : List Label) : (x.under more).id = x.id := rfl

/-- Whether a site stays when branches are cut off. -/
def spared (cut : NodeId → Bool) (x : Site) : Bool := !cut x.id && x.above.all (!cut ·.id)

/-- The site once branches have been cut off. -/
def prune (cut : NodeId → Bool) (x : Site) : Site := ⟨x.above, x.here.prune cut⟩

/-- The site once the node with the number `n` has been given a child. -/
def graft (n : NodeId) (branch : Planted) (x : Site) : Site :=
  ⟨x.above.map (Label.grow n), x.here.graft n branch⟩

/-- The site once nodes have been replaced by their children. -/
def dissolve (gone : NodeId → Bool) (x : Site) : Site :=
  ⟨x.above.filter (!gone ·.id), x.here.dissolve gone⟩

/-- The entry that a forest has for a site. -/
def entry (x : Site) : Entry :=
  ⟨x.here.content, x.here.label.source, x.above.head?.map Label.id, x.here.children.map Planted.id⟩

end Site

namespace Planted

theorem sites_eq (above : List Label) (t : Planted) :
    t.sites above = ⟨above, t⟩ :: sitesAll (t.label :: above) t.children := by
  cases t; rfl

theorem self_mem_sites (above : List Label) (t : Planted) : ⟨above, t⟩ ∈ t.sites above := by
  rw [sites_eq]; exact List.mem_cons_self

theorem sites_nil (t : Planted) : t.sites [] = ⟨[], t⟩ :: t.inner := sites_eq [] t

theorem mem_sites_of_mem_inner {t : Planted} {x : Site} (h : x ∈ t.inner) : x ∈ t.sites [] := by
  rw [sites_nil]; exact List.mem_cons_of_mem _ h

theorem sitesAll_concat (above : List Label) (ts us : List Planted) :
    sitesAll above (ts ++ us) = sitesAll above ts ++ sitesAll above us := by
  induction ts with
  | nil => rfl
  | cons t ts ih => rw [List.cons_append, sitesAll, sitesAll, ih, List.append_assoc]

theorem sitesAll_singleton (above : List Label) (t : Planted) :
    sitesAll above [t] = t.sites above := by
  rw [sitesAll, sitesAll, List.append_nil]

theorem mem_sitesAll {above : List Label} {ts : List Planted} {x : Site} :
    x ∈ sitesAll above ts ↔ ∃ t ∈ ts, x ∈ t.sites above := by
  induction ts with
  | nil => simp [sitesAll]
  | cons t ts ih => simp [sitesAll, ih]

theorem trees_eq (ts : List Planted) : trees ts = ts.map tree := by
  induction ts with
  | nil => rfl
  | cons t ts ih => rw [trees, ih, List.map_cons]

theorem trees_append (ts us : List Planted) : trees (ts ++ us) = trees ts ++ trees us := by
  simp only [trees_eq, List.map_append]

theorem idsAll_eq (ts : List Planted) : idsAll ts = ts.flatMap ids := by
  induction ts with
  | nil => rfl
  | cons t ts ih => rw [idsAll, ih, List.flatMap_cons]

theorem idsAll_append (ts us : List Planted) : idsAll (ts ++ us) = idsAll ts ++ idsAll us := by
  rw [idsAll_eq, idsAll_eq, idsAll_eq, List.flatMap_append]

theorem pruneAll_eq (cut : NodeId → Bool) (ts : List Planted) :
    pruneAll cut ts = (ts.filter (!cut ·.id)).map (prune cut) := by
  induction ts with
  | nil => rfl
  | cons t ts ih => by_cases h : cut t.id <;> simp [pruneAll, h, ih]

theorem graftAll_eq (n : NodeId) (ts : List Planted) (branch : Planted) :
    graftAll n ts branch = ts.map (·.graft n branch) := by
  induction ts with
  | nil => rfl
  | cons t ts ih => rw [graftAll, ih, List.map_cons]

@[simp] theorem label_prune (cut : NodeId → Bool) (t : Planted) :
    (t.prune cut).label = t.label := by
  cases t; rfl

@[simp] theorem id_prune (cut : NodeId → Bool) (t : Planted) : (t.prune cut).id = t.id := by
  cases t; rfl

@[simp] theorem content_prune (cut : NodeId → Bool) (t : Planted) :
    (t.prune cut).content = t.content := by
  cases t; rfl

@[simp] theorem children_prune (cut : NodeId → Bool) (t : Planted) :
    (t.prune cut).children = pruneAll cut t.children := by
  cases t; rfl

@[simp] theorem id_graft (n : NodeId) (t branch : Planted) : (t.graft n branch).id = t.id := by
  cases t; exact Label.id_grow _ _

@[simp] theorem label_dissolve (gone : NodeId → Bool) (t : Planted) :
    (t.dissolve gone).label = t.label := by
  cases t; rfl

@[simp] theorem id_dissolve (gone : NodeId → Bool) (t : Planted) :
    (t.dissolve gone).id = t.id := by
  cases t; rfl

@[simp] theorem content_dissolve (gone : NodeId → Bool) (t : Planted) :
    (t.dissolve gone).content = t.content := by
  cases t; rfl

@[simp] theorem children_dissolve (gone : NodeId → Bool) (t : Planted) :
    (t.dissolve gone).children = dissolveAll gone t.children := by
  cases t; rfl

theorem self_mem_ids (t : Planted) : t.id ∈ t.ids := by
  cases t; exact List.mem_cons_self

theorem ids_eq (t : Planted) : t.ids = t.id :: idsAll t.children := by
  cases t; rfl

theorem id_not_mem {t : Planted} (hn : t.ids.Nodup) : t.id ∉ idsAll t.children :=
  (List.nodup_cons.1 (t.ids_eq ▸ hn)).1

theorem nodup_idsAll {t : Planted} (hn : t.ids.Nodup) : (idsAll t.children).Nodup :=
  (List.nodup_cons.1 (t.ids_eq ▸ hn)).2

theorem map_id_pruneAll (cut : NodeId → Bool) (ts : List Planted) :
    (pruneAll cut ts).map id = (ts.map id).filter (!cut ·) := by
  rw [pruneAll_eq, List.map_map, List.filter_map]
  refine List.map_congr_left fun t _ => ?_
  rw [Function.comp_apply, id_prune]

theorem dissolveAll_append (gone : NodeId → Bool) (ts us : List Planted) :
    dissolveAll gone (ts ++ us) = dissolveAll gone ts ++ dissolveAll gone us := by
  induction ts with
  | nil => rfl
  | cons t ts ih => rw [List.cons_append, dissolveAll, dissolveAll, ih, List.append_assoc]

theorem dissolveAll_cons_of_gone {gone : NodeId → Bool} {t : Planted} (h : gone t.id = true)
    (ts : List Planted) :
    dissolveAll gone (t :: ts) = dissolveAll gone t.children ++ dissolveAll gone ts := by
  obtain ⟨l, cs⟩ := t
  rw [dissolveAll, spread, if_pos (by simpa using h)]
  rfl

theorem dissolveAll_cons_of_kept {gone : NodeId → Bool} {t : Planted} (h : gone t.id = false)
    (ts : List Planted) :
    dissolveAll gone (t :: ts) = t.dissolve gone :: dissolveAll gone ts := by
  obtain ⟨l, cs⟩ := t
  rw [dissolveAll, spread, if_neg (by simpa using h)]
  rfl

theorem dissolveAll_node (gone : NodeId → Bool) (l : Label) (cs ts : List Planted) :
    dissolveAll gone (.node l cs :: ts)
      = if gone l.id then dissolveAll gone cs ++ dissolveAll gone ts
        else .node l (dissolveAll gone cs) :: dissolveAll gone ts := by
  rw [dissolveAll, spread]
  split <;> rfl

theorem map_id_dissolveAll {gone : NodeId → Bool} {ts : List Planted}
    (h : ∀ t ∈ ts, gone t.id = false) : (dissolveAll gone ts).map id = ts.map id := by
  induction ts with
  | nil => rw [dissolveAll]
  | cons t ts ih =>
    rw [dissolveAll_cons_of_kept (h t List.mem_cons_self), List.map_cons, List.map_cons,
      id_dissolve, ih fun u hu => h u (List.mem_cons_of_mem _ hu)]

/-- A property of trees that passes from the branches to the tree holds of every tree. -/
@[elab_as_elim, induction_eliminator]
theorem induction {motive : Planted → Prop}
    (node : ∀ label children, (∀ c ∈ children, motive c) → motive (.node label children)) :
    ∀ t, motive t
  | .node l cs => node l cs fun c _ => induction node c

end Planted

namespace Site

@[simp] theorem id_prune (cut : NodeId → Bool) (x : Site) : (x.prune cut).id = x.id :=
  Planted.id_prune cut x.here

@[simp] theorem id_graft (n : NodeId) (branch : Planted) (x : Site) :
    (x.graft n branch).id = x.id :=
  Planted.id_graft n x.here branch

@[simp] theorem id_dissolve (gone : NodeId → Bool) (x : Site) : (x.dissolve gone).id = x.id :=
  Planted.id_dissolve gone x.here

/-- Cutting off branches shortens the lists of children. -/
theorem entry_prune (cut : NodeId → Bool) (x : Site) :
    (x.prune cut).entry = { x.entry with children := x.entry.children.filter (!cut ·) } := by
  obtain ⟨above, l, cs⟩ := x
  simp only [entry, prune, Planted.prune, Planted.content_node, Planted.label_node,
    Planted.children_node, Planted.map_id_pruneAll]

/-- A new branch is a new child of one node, which then has a block. -/
theorem entry_graft (n : NodeId) (branch : Planted) (x : Site) :
    (x.graft n branch).entry =
      ⟨if n = x.id then x.entry.content.withBlock else x.entry.content, x.entry.source,
        x.entry.parent,
        if n = x.id then x.entry.children ++ [branch.id] else x.entry.children⟩ := by
  obtain ⟨above, l, cs⟩ := x
  have hm : (Planted.graftAll n cs branch).map Planted.id = cs.map Planted.id := by
    rw [Planted.graftAll_eq, List.map_map]
    exact List.map_congr_left fun c _ => Planted.id_graft n c branch
  have hh : (above.map (Label.grow n)).head?.map Label.id = above.head?.map Label.id := by
    cases above <;> simp
  simp only [entry, graft, Planted.graft, Planted.content_node, Planted.label_node,
    Planted.children_node, Label.source_grow, hh, List.map_append, hm, id_mk, Planted.id_node]
  by_cases h : l.id = n
  · simp [Label.grow, h]
  · simp [Label.grow, h, Ne.symm h]

end Site
end MediaGrouping
