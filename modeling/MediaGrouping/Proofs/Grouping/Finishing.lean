/-
# Finishing a run

Once all blocks are done, their groups are put back and the wrappers that are
left dissolve. What the sheet then is, is `Grouping.groupedAll` of what it was at
the start (`Capturing.finish`).
-/

import MediaGrouping.Proofs.Grouping.Capturing
import MediaGrouping.Proofs.Grouping.Emitting
import MediaGrouping.Proofs.Grouping.Shape

namespace MediaGrouping

open Grouping (mediaName emission opened rest sorted trimmed)
open Planted (OnSheet)

theorem Tree.dissolveAll_flatMap {α : Type} (o : Options) (f : α → List Tree) (l : List α) :
    Tree.dissolveAll o (l.flatMap f) = l.flatMap fun a => Tree.dissolveAll o (f a) := by
  induction l with
  | nil => rw [List.flatMap_nil, Tree.dissolveAll, List.flatMap_nil]
  | cons a l ih => rw [List.flatMap_cons, List.flatMap_cons, Tree.dissolveAll_append, ih]

namespace Planted

/-- **Dissolving by numbers is dissolving wrappers**, if the numbers are theirs. -/
theorem trees_dissolveAll {o : Options} {gone : NodeId → Bool} :
    ∀ {above : List Label} {ts : List Planted},
      (∀ x ∈ sitesAll above ts, gone x.id = o.wraps x.here.content) →
      trees (dissolveAll gone ts) = Tree.dissolveAll o (trees ts)
  | _, [], _ => by rw [dissolveAll, trees, Tree.dissolveAll]
  | above, .node l cs :: ts, h => by
    rw [sitesAll, sites, List.forall_mem_append, List.forall_mem_cons] at h
    have hl : gone l.id = o.wraps l.content := h.1.1
    have hcs := trees_dissolveAll h.1.2
    have hts := trees_dissolveAll h.2
    rw [dissolveAll_node, trees, tree, Tree.dissolveAll_node, hl]
    split_ifs
    · rw [trees_append, hcs, hts]
    · rw [trees, tree, hcs, hts]

end Planted

/-- **The wrappers of a sheet, unwrapped in pre-order**, dissolve. -/
theorem Forest.Stands.unwrapWrappers {f : Forest} {t : Planted} (h : f.Stands t) (o : Options)
    (ht : t.tree.Sheet) :
    ∃ t', ((f.collect o.isWrapper t.id).foldl Forest.unwrap f).Stands t' ∧ t'.id = t.id ∧
      t'.tree = t.tree.withChildren (Tree.dissolveAll o t.tree.children) ∧
      Spares f ((f.collect o.isWrapper t.id).foldl Forest.unwrap f) [t.id] := by
  have hids : (t.inner.map Site.id).Nodup := Planted.nodup_inner h.nodup
  rw [h.collect ht.contained, o.isWrapper_eq_wraps]
  set ns := (t.inner.filter (o.wraps ·.here.content)).map Site.id with hns
  have hmem : ∀ n ∈ ns, n ∈ t.inner.map Site.id := fun n hn =>
    (List.filter_sublist.map _).subset hn
  have hgone : ∀ x ∈ t.inner, ns.contains x.id = o.wraps x.here.content := by
    intro x hx
    rw [Bool.eq_iff_iff, List.contains_iff_mem, hns, List.mem_map]
    constructor
    · rintro ⟨y, hy, hi⟩
      obtain ⟨hy, hw⟩ := List.mem_filter.1 hy
      exact Planted.eq_of_id_eq h.nodup (Planted.mem_sites_of_mem_inner hy)
        (Planted.mem_sites_of_mem_inner hx) hi ▸ hw
    · exact fun hw => ⟨x, List.mem_filter.2 ⟨hx, hw⟩, rfl⟩
  obtain ⟨h₁, hs₁⟩ := h.unwrapAll ns (hids.sublist (List.filter_sublist.map _)) hmem
  refine ⟨_, h₁, Planted.id_dissolve _ t, ?_, hs₁⟩
  have hchildren := Planted.trees_dissolveAll hgone
  rw [← Planted.children_tree] at hchildren
  rw [← hchildren]
  obtain ⟨l, cs⟩ := t
  rfl

namespace Resolver

/-- The root's group is the one that is anchored at the root. -/
theorem Numbers.kind_eq {r : Resolver} {root : NodeId} {g : Group} (h : r.Numbers root g)
    (hn : (root :: r.anchors).Nodup) : g.kind = if g.anchor = root then .root else .wrapper := by
  obtain ⟨k, hk, -, hkind⟩ := h
  rw [hkind]
  cases k with
  | zero =>
    rw [if_pos rfl, if_pos (Option.some.inj hk).symm]
  | succ k =>
    have hm : g.anchor ∈ r.anchors := List.mem_of_getElem? hk
    rw [if_neg (Nat.succ_ne_zero k),
      if_neg fun he : g.anchor = root => (List.nodup_cons.1 hn).1 (he ▸ hm)]

end Resolver

/-- No two groups have the same anchor. -/
theorem Aggregator.Keeps.nodup_anchors {root : NodeId} {r : Resolver} {a : Aggregator}
    {table : Table} (h : Keeps root r a table) : (a.groups.map Group.anchor).Nodup := by
  refine List.pairwise_map.2 (h.ascending.imp_of_mem fun {g k} hg hk hlt he => ?_)
  exact Nat.ne_of_lt hlt ((h.numbers g hg).id_eq h.anchors (h.numbers k hk) he)

namespace Capturing

variable {o : Options} {f₀ : Forest} {t c : Planted} {done : List Site} {s : Capture}
  {table : Table} {x : Site} {n : NodeId}

section

variable (h : Capturing o f₀ t done [] s table)

include h

/-- All blocks that leave are gone. -/
theorem gone_eq_leaves (hn : t.ids.Nodup) : ∀ x ∈ t.inner, gone o done x.id = x.leaves o := by
  intro x hx
  have hsplit := h.split
  rw [List.append_nil] at hsplit
  rw [Bool.eq_iff_iff, gone_iff]
  constructor
  · rintro ⟨y, hy, hl, hi⟩
    obtain ⟨hyi, -⟩ := List.mem_filter.1 (hsplit ▸ hy)
    exact Planted.eq_of_id_eq hn (Planted.mem_sites_of_mem_inner hyi)
      (Planted.mem_sites_of_mem_inner hx) hi ▸ hl
  · exact fun hl => ⟨x, hsplit ▸ List.mem_filter.2 ⟨hx, (Site.leaves_iff.1 hl).1⟩, hl, rfl⟩

/-- Of the children of the root the blocks are gone. -/
theorem gone_child (hs : t.IsSheet) (hn : t.ids.Nodup) (hc : c ∈ t.children) :
    gone o done c.id = c.tree.isMedia := by
  have hx : ⟨[t.label], c⟩ ∈ t.inner := Planted.mem_inner_iff.2
    ⟨Planted.child_mem_sites (t.self_mem_sites []) hc, List.cons_ne_nil _ _⟩
  have hroot : Planted.Anchors o t.label [] := hs.anchors_root
  rw [Planted.isMedia_tree, show gone o done c.id = _ from h.gone_eq_leaves hn _ hx, Site.leaves,
    hroot.anchor?_child, Option.any_some, hroot.free, Bool.not_false, Bool.and_true]
  rfl

/-- The merged blocks of an anchor on the sheet. -/
theorem trees_sorted (hon : OnSheet o t n) : Planted.trees (sorted o (table n))
    = sorted o (Grouping.merged ((t.inner.filter (Site.homed o n)).map (Site.parcel o))) := by
  have hsplit := h.split
  rw [List.append_nil] at hsplit
  have hf : done.filter (Site.homed o n) = t.inner.filter (Site.homed o n) := by
    rw [← hsplit, List.filter_filter]
    refine List.filter_congr fun x _ => ?_
    cases hh : x.homed o n with
    | false => rfl
    | true => rw [(Planted.homed_iff.1 hh).1, Bool.and_self]
  rw [Planted.trees_eq, ← Grouping.sorted_mapValues, h.merged n hon, hf]

theorem trees_sorted_root (hs : t.IsSheet) (hn : t.ids.Nodup) :
    Planted.trees (sorted o (table t.id)) = emission o (Planted.trees t.children) := by
  rw [h.trees_sorted (Or.inl rfl), hs.parcels_root hn]
  rfl

theorem trees_sorted_wrapper (hs : t.IsSheet) (hn : t.ids.Nodup) (hc : c ∈ t.children)
    (hw : o.wraps c.content = true) (hm : c.content.isAtRuleNamed mediaName = false) :
    Planted.trees (sorted o (table c.id)) = emission o (Planted.trees c.children) := by
  rw [h.trees_sorted (Or.inr ⟨c, hc, rfl, hw, hm⟩), hs.parcels_wrapper hn hc hw hm]
  rfl

/-- **Groups are put back** into the sheet as it is then. -/
theorem emitting (h₀ : f₀.Stands t) (hs : t.IsSheet) :
    Emitting o s.forest f₀.size (t.prune (gone o done)) table [] s.aggregator.groups s.forest where
  stands := by
    rw [Planted.restored_nil]
    exact h.live
  copies := fun g _ u hu => by
    obtain ⟨k, hk⟩ := Grouping.exists_key_of_sorted hu
    exact h.holds.stands _ _ hk
  anchors := fun g hg => by
    rcases h.anchors g.anchor ((h.keeps.known _).2 ⟨g, hg, rfl⟩) with
      (ht | ⟨c, hc, hi, -, hm⟩) | ⟨d, hd, hi, hmem, hne⟩
    · exact Or.inl (ht.trans (Planted.id_prune _ t).symm)
    · refine Or.inr (Or.inl ⟨c.prune (gone o done), ?_, (Planted.id_prune _ c).trans hi⟩)
      have hgone := h.gone_child hs h₀.nodup hc
      rw [Planted.isMedia_tree, hm] at hgone
      rw [Planted.children_prune, Planted.pruneAll_eq]
      exact List.mem_map_of_mem (List.mem_filter.2 ⟨hc, by rw [hgone]; rfl⟩)
    · have hpd : (t.prune (gone o done)).id ≠ d.id := fun he =>
        hne (hi.symm.trans (he.symm.trans (Planted.id_prune _ t)))
      refine Or.inr (Or.inr ⟨d, hd, hi, hi ▸ h₀.lt_size hmem, hpd, fun c hc he => ?_⟩)
      have hcm := Planted.id_mem_ids (Planted.child_mem_sites (Planted.self_mem_sites [] _) hc)
      exact hpd (h.live.id_eq hd hcm (show c.id ∈ d.ids from he ▸ d.self_mem_ids))
  merged := h.keeps.merged
  kinds := fun g hg => by
    rw [Planted.id_prune]
    exact (h.keeps.numbers g hg).kind_eq h.keeps.anchors
  distinct := h.keeps.nodup_anchors
  others := fun u hu _ _ _ => hu

/-- **A node right below the root** becomes what grouping makes of it, once the
wrappers are dissolved. -/
theorem trees_reopened (ht : t.tree.Sheet) (hn : t.ids.Nodup) {all : List NodeId}
    (hall : ∀ n, table n ≠ [] → n ∈ all) (hc : c ∈ t.children) (hm : c.tree.isMedia = false)
    (hon : c.id ∈ all → o.wraps c.content = true) :
    (∀ b ∈ Planted.trees (Planted.reopened o table all (c.prune (gone o done))), b.Branch) ∧
      Tree.dissolveAll o (Planted.trees (Planted.reopened o table all (c.prune (gone o done))))
        = Tree.dissolveAll o (opened o (trimmed o c.tree)) := by
  have hs := ht.isSheet
  have hcut := h.gone_eq_leaves hn
  have hbranch : c.tree.Branch := ht.branches _ (by
    rw [Planted.children_tree, Planted.trees_eq]
    exact List.mem_map_of_mem hc)
  rw [Planted.reopened, Planted.id_prune, Planted.children_prune]
  by_cases hw : o.wraps c.content = true
  · have hm' : c.content.isAtRuleNamed mediaName = false := by rw [← Planted.isMedia_tree, hm]
    have hw' : o.wraps c.tree.content = true := by rwa [Planted.content_tree]
    have hkids := hs.trees_prune_wrapper hn hcut hc hw hm'
    have hblocks := h.trees_sorted_wrapper hs hn hc hw hm'
    rw [← Planted.children_tree] at hkids hblocks
    rw [Grouping.trimmed_of_wrapper hw', opened, if_pos hw']
    split_ifs with hmem
    · rw [Planted.trees_append, hkids, hblocks]
      exact ⟨List.forall_mem_append.2 ⟨Grouping.branch_rest hbranch.children,
        Grouping.branch_emission hbranch.children⟩, rfl⟩
    · -- no block was found in it, and so it is only now that it dissolves
      have hnil : table c.id = [] := by
        by_contra hne
        exact hmem (hall c.id hne)
      rw [hnil, Grouping.sorted_nil] at hblocks
      have htree : (c.prune (gone o done)).tree
          = c.tree.withChildren (rest o c.tree.children) := by
        rw [← hkids]
        obtain ⟨l, cs⟩ := c
        rfl
      rw [← hblocks, Planted.trees, Planted.trees, Planted.trees, htree, List.append_nil]
      refine ⟨List.forall_mem_singleton.2 (hbranch.withChildren (fun hcc => ?_)
        (Grouping.branch_rest hbranch.children)), ?_⟩
      · rw [hbranch.children_eq_nil hcc]
        rfl
      · rw [Tree.withChildren, Tree.dissolveAll_node, if_pos hw', Tree.dissolveAll,
          List.append_nil]
  · rw [if_neg fun hmem => hw (hon hmem), Planted.trees, Planted.trees,
      hs.tree_prune_child hn hcut hc (Bool.eq_false_iff.2 hw), opened,
      if_neg (by rwa [Grouping.content_trimmed, Planted.content_tree])]
    exact ⟨List.forall_mem_singleton.2 (Grouping.branch_trimmed hbranch), rfl⟩

/-- **The sheet with all groups put back** becomes the grouped sheet once its
wrappers are dissolved. -/
theorem trees_restored (ht : t.tree.Sheet) (hn : t.ids.Nodup) {all : List NodeId}
    (hall : ∀ n, table n ≠ [] → n ∈ all)
    (hon : ∀ c ∈ t.children, c.tree.isMedia = false → c.id ∈ all → o.wraps c.content = true) :
    (∀ b ∈ Planted.trees ((t.prune (gone o done)).restored o table all).children, b.Branch) ∧
      Tree.dissolveAll o (Planted.trees ((t.prune (gone o done)).restored o table all).children)
        = Grouping.groupedAll o t.tree.children := by
  set ks := t.children.filter (!·.tree.isMedia) with hks
  have hkids : (t.prune (gone o done)).children = ks.map (Planted.prune (gone o done)) := by
    rw [Planted.children_prune, Planted.pruneAll_eq, hks]
    exact congrArg _ (List.filter_congr fun c hc => by rw [h.gone_child ht.isSheet hn hc])
  have hrest : rest o t.tree.children = ks.map fun c => trimmed o c.tree := by
    rw [rest, Planted.children_tree, Planted.trees_eq, List.filter_map, List.map_map]
    rfl
  have hroot : Planted.trees (if (t.prune (gone o done)).id ∈ all
      then sorted o (table (t.prune (gone o done)).id) else []) = emission o t.tree.children := by
    rw [Planted.id_prune, Planted.children_tree, ← h.trees_sorted_root ht.isSheet hn]
    split_ifs with hmem
    · rfl
    · have hnil : table t.id = [] := by
        by_contra hne
        exact hmem (hall t.id hne)
      rw [hnil, Grouping.sorted_nil]
  have hpiece : ∀ c ∈ ks, _ := fun c hc =>
    h.trees_reopened ht hn hall (List.mem_filter.1 hc).1
      (by simpa using (List.mem_filter.1 hc).2)
      (hon c (List.mem_filter.1 hc).1 (by simpa using (List.mem_filter.1 hc).2))
  have htrees : Planted.trees (ks.flatMap fun c =>
        Planted.reopened o table all (c.prune (gone o done)))
      = ks.flatMap fun c =>
        Planted.trees (Planted.reopened o table all (c.prune (gone o done))) := by
    simp only [Planted.trees_eq, List.map_flatMap]
  rw [Planted.restored, Planted.children_node, hkids, List.flatMap_map, Planted.trees_append, hroot,
    htrees]
  constructor
  · refine List.forall_mem_append.2 ⟨fun b hb => ?_, Grouping.branch_emission ht.branches⟩
    obtain ⟨c, hc, hb⟩ := List.mem_flatMap.1 hb
    exact (hpiece c hc).1 b hb
  · rw [Grouping.groupedAll, hrest, List.flatMap_map, Tree.dissolveAll_append,
      Tree.dissolveAll_append, Tree.dissolveAll_flatMap, Tree.dissolveAll_flatMap]
    exact congrArg (· ++ _) (List.flatMap_congr fun c hc => (hpiece c hc).2)

/-- Every anchor is a node of the sheet as it was at the start. -/
theorem anchor_mem (hne : table n ≠ []) : n ∈ t.ids := by
  rcases h.anchors n hne with (rfl | ⟨c, hc, rfl, -⟩) | ⟨-, -, -, hm, -⟩
  · exact t.self_mem_ids
  · exact Planted.id_mem_ids (Planted.child_mem_sites (t.self_mem_sites []) hc)
  · exact hm

/-- An anchor right below the root is a wrapper. -/
theorem wraps_of_anchor (h₀ : f₀.Stands t) (hs : t.IsSheet) (hc : c ∈ t.children)
    (hm : c.tree.isMedia = false) (hne : table c.id ≠ []) : o.wraps c.content = true := by
  have hcs := Planted.child_mem_sites (t.self_mem_sites []) hc
  rcases h.anchors c.id hne with (ht | ⟨d, hd, hi, hw, -⟩) | ⟨d, hd, hi, -, hdt⟩
  · exact absurd ht.symm
      (Planted.top_ne_inner h₀.nodup (Planted.mem_inner_iff.2 ⟨hcs, List.cons_ne_nil _ _⟩))
  · have hds := Planted.child_mem_sites (t.self_mem_sites []) hd
    have := Planted.eq_of_id_eq h₀.nodup hds hcs hi
    rw [Site.mk.injEq] at this
    exact this.2 ▸ hw
  · -- the node is still on the sheet, and so in no other tree
    have hgone := (h.gone_child hs h₀.nodup hc).trans hm
    have htop : gone o done t.id = false := by
      rw [Bool.eq_false_iff]
      intro hg
      obtain ⟨y, hy, -, hi⟩ := gone_iff.1 hg
      have hy : y ∈ t.inner.filter Site.isMedia := h.split ▸ List.mem_append_left _ hy
      exact Planted.top_ne_inner h₀.nodup (List.mem_filter.1 hy).1 hi.symm
    have hmem := Planted.id_mem_ids ((Planted.mem_sites_prune (gone o done) htop).2
      ⟨_, hcs, hgone, List.forall_mem_singleton.2 htop, rfl⟩)
    rw [Site.id_prune, Site.id_mk] at hmem
    have := h.live.id_eq hd hmem (hi ▸ d.self_mem_ids)
    rw [Planted.id_prune] at this
    exact absurd (hi.symm.trans this.symm) hdt

/-- **The groups of a run put back**: once wrappers are dissolved, the sheet is
grouped. -/
theorem emit (h₀ : f₀.Stands t) (ht : t.tree.Sheet) :
    ∃ all : List NodeId, all.Nodup ∧ (∀ n, n ∈ all ↔ table n ≠ []) ∧
      (Grouping.emit o s.forest s.aggregator.groups).Stands
        ((t.prune (gone o done)).restored o table all) ∧
      ((t.prune (gone o done)).restored o table all).tree.Sheet ∧
      Tree.dissolveAll o ((t.prune (gone o done)).restored o table all).tree.children
        = Grouping.groupedAll o t.tree.children ∧
      ∀ u, f₀.Stands u → u.id ≠ t.id →
        (Grouping.emit o s.forest s.aggregator.groups).Stands u := by
  have hs := ht.isSheet
  have hroot : t.content.withBlock = t.content := by
    rw [← Planted.content_tree, ht.root]
    rfl
  have hpid := Planted.id_prune (gone o done) t
  obtain ⟨all, hall, hrun⟩ := (h.emitting h₀ hs).run h.holds (by
    rw [hpid]
    exact h₀.lt_size t.self_mem_ids) h.live.nodup (by rwa [Planted.content_prune])
  have hknown : ∀ n, n ∈ all ↔ table n ≠ [] := fun n => by
    rw [h.keeps.known, hall, List.mem_map]
    simp
  have hnodup := hrun.distinct
  rw [List.map_nil, List.append_nil] at hnodup
  obtain ⟨hbranch, hgrouped⟩ := h.trees_restored ht h₀.nodup (fun n => (hknown n).2)
    fun c hc hm hmem => h.wraps_of_anchor h₀ hs hc hm ((hknown _).1 hmem)
  have hchildren := Planted.children_tree ((t.prune (gone o done)).restored o table all)
  refine ⟨all, hnodup, hknown, hrun.stands, ⟨?_, ?_⟩, ?_, fun u hu hne => ?_⟩
  · exact (Planted.content_tree _).trans ((Planted.content_prune _ t).trans
      ((Planted.content_tree t).symm.trans ht.root))
  · rwa [hchildren]
  · rwa [hchildren]
  · refine hrun.others u (h.others u hu hne) (hu.lt_size u.self_mem_ids) (hpid.symm ▸ hne) ?_
    rw [List.map_nil, List.append_nil, hknown]
    exact fun hn => hne (h₀.id_eq hu (h.anchor_mem hn) u.self_mem_ids).symm

end
end Capturing
end MediaGrouping
