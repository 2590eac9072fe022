/-
# The blocks that leave a sheet

Of the blocks of a planted sheet, those leave it that have an anchor which is no
block itself (`Site.leaves`). None of them is inside another, so that the order
in which they leave does not matter. The blocks with one anchor are `blocks` of
the anchor's children (`parcels_scope`), and pruning them leaves `rest`
(`trees_pruneAll_scope`).
-/

import MediaGrouping.Proofs.Forest.Changes
import MediaGrouping.Proofs.Grouping.Reference

namespace MediaGrouping

open Grouping (mediaName blocks blocksOf rest trimmed foreignRule?)

namespace Site

variable (o : Options)

/-- Whether a site is one of a block. -/
def isMedia (x : Site) : Bool := x.here.content.isAtRuleNamed mediaName

/-- Whether a site is one of a block that leaves for the scope of the node `n`. -/
def homed (n : NodeId) (x : Site) : Bool :=
  x.isMedia && (Scope.anchor? o mediaName x.above).any fun a =>
    a.id == n && !a.content.isAtRuleNamed mediaName

/-- Whether a site is one of a block that leaves. -/
def leaves (x : Site) : Bool :=
  x.isMedia && (Scope.anchor? o mediaName x.above).any (!·.content.isAtRuleNamed mediaName)

/-- The foreign at-rule right above a site. -/
def foreignRule? (x : Site) : Option AtRule :=
  (Scope.foreign? o mediaName x.above).bind (·.content.atRule?)

/-- A block as it leaves: with its children in a copy of the foreign at-rule above it. -/
def parcel (x : Site) : Tree :=
  match x.foreignRule? o with
  | some rule => x.here.tree.enclosed rule
  | none => x.here.tree

end Site

namespace Planted

variable {o : Options} {s : Label} {more above : List Label} {ts cs : List Planted} {n : NodeId}
  {x y : Site}

theorem content_tree (t : Planted) : t.tree.content = t.content := by
  cases t; rfl

theorem children_tree (t : Planted) : t.tree.children = trees t.children := by
  cases t; rfl

theorem isMedia_tree (t : Planted) : t.tree.isMedia = t.content.isAtRuleNamed mediaName := by
  rw [Tree.isMedia, content_tree]

/-- The sites that a test finds at the top level only. -/
theorem filter_sitesAll_top {p : Site → Bool} {ts : List Planted}
    (h : ∀ x ∈ sitesAll above ts, p x = true → x.above = above) :
    (sitesAll above ts).filter p = (ts.map (Site.mk above)).filter p := by
  induction ts with
  | nil => rfl
  | cons t ts ih =>
    rw [sitesAll, sites_eq] at h ⊢
    rw [List.cons_append, List.forall_mem_cons, List.forall_mem_append] at h
    have hi : (sitesAll (t.label :: above) t.children).filter p = [] :=
      List.filter_eq_nil_iff.2 fun x hx hp => by
        have := length_lt_of_below hx
        rw [h.2.1 x hx hp] at this
        exact Nat.lt_irrefl _ this
    rw [List.cons_append, List.filter_cons, List.filter_append, hi, List.nil_append, ih h.2.2,
      List.map_cons, List.filter_cons]

/-- The labels between a site and what is above the trees are those of nodes of the trees. -/
theorem exists_path (hx : x ∈ sitesAll above ts) :
    ∃ path, x.above = path ++ above ∧ ∀ l ∈ path, l.id ∈ idsAll ts := by
  rw [← List.nil_append above, sitesAll_append] at hx
  obtain ⟨y, hy, rfl⟩ := List.mem_map.1 hx
  refine ⟨y.above, rfl, fun l hl => ?_⟩
  obtain ⟨p, hp, hpl, -⟩ := (exists_site_aboveAll hy hl).resolve_left List.not_mem_nil
  rw [← hpl, ← sitesAll_map_id []]
  exact List.mem_map_of_mem hp

theorem homed_iff : x.homed o n = true ↔ x.isMedia = true ∧
    ∃ a, Scope.anchor? o mediaName x.above = some a ∧ a.id = n ∧
      a.content.isAtRuleNamed mediaName = false := by
  rw [Site.homed, Bool.and_eq_true, Option.any_eq_true]
  simp only [Bool.and_eq_true, beq_iff_eq, Bool.not_eq_true']

/-- No block is homed where its anchor cannot be. -/
theorem filter_homed_eq_nil (ha : ∀ l ∈ above, l.id ≠ n) (hn : n ∉ idsAll ts) :
    (sitesAll above ts).filter (Site.homed o n) = [] := by
  refine List.filter_eq_nil_iff.2 fun x hx hh => ?_
  obtain ⟨-, a, hsome, rfl, -⟩ := homed_iff.1 hh
  obtain ⟨path, hp, hids⟩ := exists_path hx
  have hm := Scope.mem_of_anchor? hsome
  rw [hp, List.mem_append] at hm
  exact hm.elim (fun h => hn (hids a h)) (fun h => ha a h rfl)

/-- The foreign at-rule above a site is the label right above it. -/
theorem foreignRule?_cons (k : Label) (above : List Label) (t : Planted) :
    Site.foreignRule? o ⟨k :: above, t⟩ = foreignRule? o k.content := by
  rw [Site.foreignRule?, Scope.foreign?, List.head?_cons, Option.filter_some, foreignRule?]
  split_ifs <;> rfl

/-- What is homed below a child of its anchor is right below the child. -/
theorem above_of_homed {k : Label} (hk : k.id ≠ s.id) (hn : s.id ∉ idsAll ts)
    (hx : x ∈ sitesAll (k :: s :: more) ts) (hh : x.homed o s.id = true) :
    x.above = k :: s :: more := by
  obtain ⟨-, a, ha, has, -⟩ := homed_iff.1 hh
  obtain ⟨path, hp, hids⟩ := exists_path hx
  have hhead := Scope.head?_of_anchor? ha
  rw [hp] at hhead ⊢
  have hne : ∀ l ∈ path ++ [k], l.id ≠ s.id := by
    intro l hl he
    rcases List.mem_append.1 hl with hl | hl
    · exact hn (he ▸ hids l hl)
    · exact hk (List.mem_singleton.1 hl ▸ he)
  match path, hne with
  | [], _ => rfl
  | p :: path, hne =>
    rw [List.cons_append, Scope.scopes] at hhead
    split_ifs at hhead
    · cases path with
      | nil => exact absurd has (Option.some.inj hhead ▸ hne k (by simp))
      | cons q path => exact absurd has (Option.some.inj hhead ▸ hne q (by simp))
    · exact absurd has (Option.some.inj hhead ▸ hne p (by simp))

/-- **A label that is the anchor of the blocks right below it**, with what is above it. -/
structure Anchors (o : Options) (s : Label) (more : List Label) : Prop where
  near : Scope.foreign o mediaName s.content = false
  anchor : Scope.anchorOf o (s :: more) = some s
  free : s.content.isAtRuleNamed mediaName = false

namespace Anchors

variable {k : Label} (h : Anchors o s more)

include h

theorem anchor?_child : Scope.anchor? o mediaName (s :: more) = some s := by
  rw [Scope.anchor?, Scope.scopes, if_neg (by simp [h.near]), h.anchor]

/-- A child of the anchor is homed if it is a block. -/
theorem homed_child (t : Planted) :
    Site.homed o s.id ⟨s :: more, t⟩ = t.content.isAtRuleNamed mediaName := by
  rw [Site.homed, h.anchor?_child, Option.any_some, beq_self_eq_true, h.free]
  exact Bool.and_true _

/-- A child of a child of the anchor is homed if it is a block in a foreign at-rule. -/
theorem homed_grandchild (hk : k.id ≠ s.id) (t : Planted) :
    Site.homed o s.id ⟨k :: s :: more, t⟩
      = (t.content.isAtRuleNamed mediaName && Scope.foreign o mediaName k.content) := by
  rw [Site.homed, Scope.anchor?, Scope.scopes]
  split_ifs with hf
  · rw [h.anchor, Option.any_some, beq_self_eq_true, h.free, hf]
    rfl
  · have hno : (Scope.anchorOf o (k :: s :: more)).any
        (fun a => a.id == s.id && !a.content.isAtRuleNamed mediaName) = false := by
      rw [Option.any_eq_false]
      intro a ha
      have hak : a = k := by
        rcases Scope.anchorOf_eq_some.1 ha with ⟨he, -⟩ | ⟨b, he, -⟩ <;>
          exact (List.cons.inj he).1.symm
      simp [hak, hk]
    rw [hno, Bool.eq_false_iff.2 hf, Bool.and_false, Bool.and_false]

/-- The blocks homed from a child of the anchor on. -/
theorem parcels_child {c : Planted} (hc : s.id ∉ c.ids) :
    ((c.sites (s :: more)).filter (Site.homed o s.id)).map (Site.parcel o)
      = blocksOf o c.tree := by
  obtain ⟨k, ds⟩ := c
  rw [ids, List.mem_cons, not_or] at hc
  have hk : k.id ≠ s.id := Ne.symm hc.1
  have hgrand : (sitesAll (k :: s :: more) ds).filter (Site.homed o s.id)
      = (ds.filter fun d => d.content.isAtRuleNamed mediaName &&
          Scope.foreign o mediaName k.content).map (Site.mk (k :: s :: more)) := by
    rw [filter_sitesAll_top fun x => above_of_homed hk hc.2, List.filter_map]
    congr 1
    exact List.filter_congr fun d _ => h.homed_grandchild hk d
  rw [sites, List.filter_cons, h.homed_child, hgrand, blocksOf, isMedia_tree, content_tree,
    content_node]
  by_cases hm : k.content.isAtRuleNamed mediaName = true
  · have hp : Site.parcel o ⟨s :: more, node k ds⟩ = (node k ds).tree := by
      rw [Site.parcel, foreignRule?_cons, foreignRule?, if_neg (by simp [h.near])]
    rw [if_pos hm, if_pos hm, Scope.foreign_of_named hm]
    simp [hp]
  · rw [if_neg hm, if_neg hm, foreignRule?]
    by_cases hf : Scope.foreign o mediaName k.content = true
    · obtain ⟨rule, hr⟩ := Scope.exists_rule_of_foreign hf
      have hp : ∀ d, Site.parcel o ⟨k :: s :: more, d⟩ = d.tree.enclosed rule := fun d => by
        rw [Site.parcel, foreignRule?_cons, foreignRule?, if_pos hf, hr]
      rw [if_pos hf, hf, hr, children_tree, children_node, trees_eq, List.filter_map]
      simp only [List.map_map, Bool.and_true, Function.comp_def, hp, isMedia_tree]
    · rw [if_neg hf, Bool.eq_false_iff.2 hf]
      simp

/-- **The blocks that leave for an anchor are those of its children.** -/
theorem parcels (hn : s.id ∉ idsAll ts) :
    ((sitesAll (s :: more) ts).filter (Site.homed o s.id)).map (Site.parcel o)
      = blocks o (trees ts) := by
  induction ts with
  | nil => rfl
  | cons c ts ih =>
    rw [idsAll, List.mem_append, not_or] at hn
    rw [sitesAll, List.filter_append, List.map_append, h.parcels_child hn.1, ih hn.2, trees, blocks,
      blocks, List.flatMap_cons]

variable {cut : NodeId → Bool}

/-- Pruning the blocks homed from a child on shortens its list of children only. -/
theorem pruneAll_child {k : Label} {ds : List Planted} (hk : k.id ≠ s.id) (hn : s.id ∉ idsAll ds)
    (hcut : ∀ x ∈ sitesAll (k :: s :: more) ds, cut x.id = x.homed o s.id) :
    pruneAll cut ds = ds.filter fun d =>
      !(d.content.isAtRuleNamed mediaName && Scope.foreign o mediaName k.content) := by
  have hkept : ∀ d ∈ ds, d.prune cut = d := fun d hd => prune_of_kept fun n hm => by
    have hsub : ∀ x ∈ sitesAll (d.label :: k :: s :: more) d.children,
        x ∈ sitesAll (k :: s :: more) ds := fun x hx =>
      mem_sitesAll.2 ⟨d, hd, sites_eq _ d ▸ List.mem_cons_of_mem _ hx⟩
    rw [← sitesAll_map_id (d.label :: k :: s :: more)] at hm
    obtain ⟨x, hx, rfl⟩ := List.mem_map.1 hm
    rw [hcut x (hsub x hx), Bool.eq_false_iff]
    intro hh
    have hlt := length_lt_of_below hx
    rw [above_of_homed hk hn (hsub x hx) hh] at hlt
    exact Nat.lt_irrefl _ hlt
  have htop : ∀ d ∈ ds, cut d.id = (d.content.isAtRuleNamed mediaName &&
      Scope.foreign o mediaName k.content) := fun d hd => by
    rw [← h.homed_grandchild hk d]
    exact hcut ⟨k :: s :: more, d⟩ (mem_sitesAll.2 ⟨d, hd, self_mem_sites _ d⟩)
  rw [pruneAll_eq, List.filter_congr fun d hd => by rw [htop d hd]]
  exact (List.map_congr_left fun d hd => hkept d (List.mem_of_mem_filter hd)).trans (List.map_id _)

/-- Pruning the blocks homed from a child on trims the child. -/
theorem tree_prune_child {c : Planted} (hc : s.id ∉ c.ids)
    (hcut : ∀ x ∈ sitesAll (c.label :: s :: more) c.children, cut x.id = x.homed o s.id) :
    (c.prune cut).tree = trimmed o c.tree := by
  obtain ⟨k, ds⟩ := c
  rw [ids, List.mem_cons, not_or] at hc
  rw [prune, h.pruneAll_child (Ne.symm hc.1) hc.2 hcut, trimmed, content_tree, content_node,
    foreignRule?]
  by_cases hf : Scope.foreign o mediaName k.content = true
  · obtain ⟨rule, hr⟩ := Scope.exists_rule_of_foreign hf
    rw [if_pos hf, hr, hf, tree, trees_eq, Tree.withChildren, children_tree, trees_eq,
      List.filter_map]
    simp only [Bool.and_true, Function.comp_def, isMedia_tree]
    rfl
  · rw [if_neg hf, Bool.eq_false_iff.2 hf]
    simp

/-- **Pruning the blocks that leave for an anchor leaves the rest of its children.** -/
theorem trees_pruneAll (hn : s.id ∉ idsAll ts)
    (hcut : ∀ x ∈ sitesAll (s :: more) ts, cut x.id = x.homed o s.id) :
    trees (pruneAll cut ts) = rest o (trees ts) := by
  have htop : ∀ c ∈ ts, cut c.id = c.tree.isMedia := fun c hc => by
    rw [isMedia_tree, ← h.homed_child c]
    exact hcut ⟨s :: more, c⟩ (mem_sitesAll.2 ⟨c, hc, self_mem_sites _ c⟩)
  have hbelow : ∀ c ∈ ts, (c.prune cut).tree = trimmed o c.tree := fun c hc => by
    refine h.tree_prune_child (fun hm => hn ?_) fun x hx => hcut x ?_
    · rw [idsAll_eq]
      exact List.mem_flatMap.2 ⟨c, hc, hm⟩
    · exact mem_sitesAll.2 ⟨c, hc, sites_eq _ c ▸ List.mem_cons_of_mem _ hx⟩
  rw [pruneAll_eq, trees_eq, trees_eq, rest, List.map_map, List.filter_map, List.map_map,
    List.filter_congr fun c hc => by rw [htop c hc]]
  exact List.map_congr_left fun c hc => hbelow c (List.mem_of_mem_filter hc)

end Anchors
end Planted
end MediaGrouping
