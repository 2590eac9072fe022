/-
# Grouping again

What is grouped without a wrapper in it stays as it is when it is grouped again: no
block is left to leave, the merged blocks have distinct query lists, and they are in
order (`Grouping.grouped_grouped`). Since a run leaves no wrapper, the second run is
the last one to change anything (`Grouping.transform_settles`). It may do so, because
unwrapping lets blocks leave that were too deep before.
-/

import MediaGrouping.Proofs.Grouping.Refinement
import MediaGrouping.Proofs.Grouping.WrapperFree
import MediaGrouping.Proofs.Query.Order

namespace MediaGrouping
namespace Grouping

variable {o : Options} {c t : Tree} {cs ts us : List Tree}

theorem rest_append (ts us : List Tree) : rest o (ts ++ us) = rest o ts ++ rest o us := by
  rw [rest, List.filter_append, List.map_append, rest, rest]

theorem blocks_append (ts us : List Tree) : blocks o (ts ++ us) = blocks o ts ++ blocks o us :=
  List.flatMap_append

theorem rest_of_media (h : ∀ t ∈ ts, t.isMedia = true) : rest o ts = [] := by
  rw [rest, List.filter_eq_nil_iff.2 fun t ht => by simp [h t ht], List.map_nil]

theorem blocks_of_media (h : ∀ t ∈ ts, t.isMedia = true) : blocks o ts = ts := by
  rw [blocks, List.flatMap_congr fun t ht => show blocksOf o t = [t] from if_pos (h t ht)]
  exact List.flatMap_singleton' ts

/-- **Nothing leaves what stays.** -/
theorem blocks_rest (o : Options) (cs : List Tree) : blocks o (rest o cs) = [] := by
  refine List.flatMap_eq_nil_iff.2 fun c hc => ?_
  have hm := isMedia_of_mem_rest hc
  obtain ⟨d, -, -, rfl⟩ := mem_rest.1 hc
  rw [blocksOf, hm, if_neg Bool.false_ne_true, content_trimmed]
  cases hf : foreignRule? o d.content with
  | none => rfl
  | some rule =>
    simp only [trimmed, hf, Tree.children_withChildren, List.filter_filter]
    exact List.map_eq_nil_iff.2 (List.filter_eq_nil_iff.2 fun e _ => by simp)

/-- **Blocks with distinct query lists** are not merged. -/
theorem merged_of_distinct (h : (ts.map Tree.query).Nodup) :
    merged ts = ts.map fun t => (t.query, t) := by
  have step : ∀ (ts : List Tree) (r : Registry Tree),
      (Registry.keys r ++ ts.map Tree.query).Nodup →
      ts.foldl mergeBlock r = r ++ ts.map fun t => (t.query, t) := by
    intro ts
    induction ts with
    | nil => exact fun r _ => (List.append_nil r).symm
    | cons t ts ih =>
      intro r hn
      have hnone : Registry.find? r t.query = none := by
        rw [Option.eq_none_iff_forall_not_mem]
        intro u hu
        exact (List.nodup_append'.1 hn).2.2
          (List.mem_map_of_mem (f := Prod.fst) (Registry.mem_of_find? hu)) List.mem_cons_self
      have hn' : (Registry.keys (r ++ [(t.query, t)]) ++ ts.map Tree.query).Nodup := by
        rw [Registry.keys, List.map_append, List.append_assoc]
        exact hn
      rw [List.foldl_cons, mergeBlock_of_none hnone, ih _ hn', List.append_assoc]
      rfl
  exact step ts [] h

/-- The query lists of merged blocks in order are the sorted query lists. -/
theorem map_query_sorted {r : Registry Tree} (h : IsMerged r) (hn : (Registry.keys r).Nodup) :
    (sorted o r).map Tree.query = o.sort.sort (Registry.keys r) := by
  rw [sorted, List.map_filterMap]
  refine (List.filterMap_eq_map_iff_forall_eq_some.2 fun k hk => ?_).trans (List.map_id _)
  obtain ⟨e, he, rfl⟩ := List.mem_map.1 ((List.mergeSort_perm _ _).mem_iff.1 hk)
  rw [Registry.find?_of_mem hn he, Option.map_some, (h e he).2]
  rfl

/-- **Merged blocks in order**, merged and put in order again, are the same. -/
theorem sorted_merged_emission (hp : o.sort.IsPreorder) (cs : List Tree) :
    sorted o (merged (emission o cs)) = emission o cs := by
  have hkeys := nodup_keys_merged (blocks o cs)
  have hqueries : (emission o cs).map Tree.query
      = o.sort.sort (Registry.keys (merged (blocks o cs))) :=
    map_query_sorted (isMerged_merged fun t ht => isMedia_of_mem_blocks ht) hkeys
  have hdistinct : ((emission o cs).map Tree.query).Nodup := by
    rw [hqueries]
    exact (List.mergeSort_perm _ _).nodup_iff.2 hkeys
  have hagain : Registry.keys ((emission o cs).map fun t => (t.query, t))
      = (emission o cs).map Tree.query := by
    rw [Registry.keys, List.map_map]
    rfl
  rw [merged_of_distinct hdistinct, sorted, hagain, hqueries, SortPolicy.sort_sort hp, ← hqueries,
    ← hagain, Registry.filterMap_find?_keys (hagain ▸ hdistinct), List.map_map]
  exact List.map_id _

/-- The blocks that leave what has been grouped are the merged blocks at its end. -/
theorem emission_emission (hp : o.sort.IsPreorder) (cs : List Tree) :
    emission o (rest o cs ++ emission o cs) = emission o cs := by
  rw [emission, blocks_append, blocks_rest, List.nil_append,
    blocks_of_media fun t ht => isMedia_of_mem_emission ht, sorted_merged_emission hp]

theorem rest_emission (o : Options) (cs : List Tree) :
    rest o (rest o cs ++ emission o cs) = rest o cs := by
  rw [rest_append, rest_rest, rest_of_media fun t ht => isMedia_of_mem_emission ht, List.append_nil]

/-- Where blocks leave, merged blocks are put back. -/
theorem blocks_eq_nil (h : emission o cs = []) : blocks o cs = [] := by
  have hvalues := sorted_perm (o := o) (nodup_keys_merged (blocks o cs))
  rw [show sorted o (merged (blocks o cs)) = [] from h] at hvalues
  have hnil : merged (blocks o cs) = [] := List.map_eq_nil_iff.1 hvalues.symm.eq_nil
  have step : ∀ (ts : List Tree) {r : Registry Tree}, r ≠ [] → ts.foldl mergeBlock r ≠ [] := by
    intro ts
    induction ts with
    | nil => exact fun hr => hr
    | cons t ts ih => exact fun _ => ih (Registry.update_ne_nil _ _)
  cases hb : blocks o cs with
  | nil => rfl
  | cons t ts =>
    rw [hb] at hnil
    exact absurd hnil (step ts (Registry.update_ne_nil _ _))

/-- **Grouping puts no annotation at the end** where there was none. -/
theorem annotationOf_regrouped (h : annotationOf cs = none) :
    annotationOf (rest o cs ++ emission o cs) = none := by
  rw [annotationOf, List.getLast?_append]
  cases he : (emission o cs).getLast? with
  | some t =>
    -- the last of the merged blocks is an at-rule
    obtain ⟨r, hr, -⟩ := Tree.exists_atRule_of_isMedia
      (isMedia_of_mem_emission (List.mem_of_getLast? he))
    rw [Option.some_or, Option.filter_some, hr]
    rfl
  | none =>
    -- no block has left, and so the last node is the last one from before
    have hblocks := blocks_eq_nil (List.getLast?_eq_none_iff.1 he)
    have hmedia : cs.filter (!·.isMedia) = cs := List.filter_eq_self.2 fun c hc => by
      have hnone : blocksOf o c = [] := List.flatMap_eq_nil_iff.1 hblocks c hc
      rw [blocksOf] at hnone
      split_ifs at hnone with hm
      rw [Bool.not_eq_true', Bool.eq_false_iff]
      exact hm
    have hcontent : (fun c => isAnnotation c.content) ∘ trimmed o
        = fun c : Tree => isAnnotation c.content :=
      funext fun c => congrArg isAnnotation (content_trimmed o c)
    rw [annotationOf] at h
    rw [Option.none_or, rest, hmedia, List.getLast?_map, Option.filter_map, hcontent, h]
    rfl

/-- **What is grouped without wrappers** stays as it is. -/
theorem grouped_grouped (hb : o.Blind) (hp : o.sort.IsPreorder) (h : ∀ c ∈ t.children, c.Free o) :
    grouped o (grouped o t) = grouped o t := by
  have hfree : ∀ c ∈ body t.children, c.Free o := fun c hc => h c (mem_of_mem_body hc)
  have hgrouped := groupedAll_of_free hb hfree
  have hagain : groupedAll o (groupedAll o (body t.children)) = groupedAll o (body t.children) := by
    rw [hgrouped, groupedAll_of_free hb
      (List.forall_mem_append.2 ⟨free_rest hfree, free_emission hb hfree⟩), rest_emission,
      emission_emission hp]
  set children := groupedAll o (body t.children) ++ (annotationOf t.children).toList with hchildren
  have hann : annotationOf children = annotationOf t.children := by
    cases ha : annotationOf t.children with
    | none =>
      have hbody : body t.children = t.children := by
        rw [body, ha]
        rfl
      rw [hchildren, ha, Option.toList_none, List.append_nil, hgrouped, hbody,
        annotationOf_regrouped ha]
    | some c =>
      rw [hchildren, ha, Option.toList_some, annotationOf, List.getLast?_concat, Option.filter_some,
        if_pos (mem_of_annotationOf ha).2]
  have hbody : body children = groupedAll o (body t.children) := by
    have := body_append children
    rw [hann, hchildren] at this
    exact List.append_cancel_right this
  calc grouped o (grouped o t)
      = t.withChildren (groupedAll o (body children) ++ (annotationOf children).toList) := rfl
    _ = t.withChildren children := by rw [hbody, hann, hagain]
    _ = grouped o t := rfl

/-- The forest after some runs on the same root. -/
def rerun (o : Options) (f : Forest) (root : NodeId) : Nat → Forest
  | 0 => f
  | k + 1 => (transform o (rerun o f root k) root).forest

theorem rerun_succ (o : Options) (f : Forest) (root : NodeId) (k : Nat) :
    rerun o f root (k + 1) = rerun o (transform o f root).forest root k := by
  induction k with
  | zero => rfl
  | succ k ih => rw [rerun, ih, rerun]

end Grouping

namespace Forest.Stands

open Grouping (grouped mediaName rerun transform)

variable {o : Options} {f : Forest} {t : Planted}

/-- **Without wrappers a run ends well.** -/
theorem failure_of_free (hb : o.Blind) (h : f.Stands t) (ht : t.tree.Sheet)
    (hf : ∀ c ∈ t.tree.children, c.Free o) : (transform o f t.id).failure = none := by
  have hinner {p : Planted} (hp : ∀ c ∈ p.tree.children, c.Free o) :
      ∀ x ∈ p.inner, o.wraps x.here.content = false := fun x hx => by
    rw [← Planted.content_tree]
    exact (Planted.forall_inner (fun _ => Tree.Free.children) hp x hx).wraps
  have hbare : ∀ c ∈ t.bare.tree.children, c.Free o := by
    rw [Planted.tree_bare, Tree.children_withChildren]
    exact fun c hc => hf c (Grouping.mem_of_mem_body hc)
  have hmild : Mild o t.bare := ⟨fun x hx _ => hinner hbare x hx, hb.wraps_withBlock⟩
  refine (h.failure_eq_none_iff ht hmild).2 fun x hx _ w hw => ?_
  obtain ⟨path, a, rest, habove, -, ha, -⟩ := hw
  -- a nested wrapper is below another wrapper, which is at a site of the sheet
  obtain ⟨y, hy, rfl, -⟩ := (Planted.exists_site_above (Planted.mem_sites_of_mem_inner hx)
    (l := a) (by simp [habove])).resolve_left List.not_mem_nil
  rw [Planted.sites_nil] at hy
  rcases List.mem_cons.1 hy with rfl | hy
  · exact Bool.false_ne_true ((Scope.wraps_root ht.isSheet.root).symm.trans ha)
  · exact Bool.false_ne_true ((hinner hf y hy).symm.trans ha)

/-- **Runs on a sheet without wrappers** end well, all of them with the same sheet. -/
theorem rerun_of_free (hb : o.Blind) (hs : o.SparesStyles) (hp : o.sort.IsPreorder)
    (h : f.Stands t) (ht : t.tree.Sheet) (hf : ∀ c ∈ t.tree.children, c.Free o) (k : Nat) :
    (transform o (rerun o f t.id k) t.id).failure = none ∧
      (rerun o f t.id (k + 1)).tree t.id = grouped o t.tree := by
  have step : ∃ u, (rerun o f t.id k).Stands u ∧ u.id = t.id ∧ u.tree.Sheet ∧
      (∀ c ∈ u.tree.children, c.Free o) ∧ grouped o u.tree = grouped o t.tree := by
    induction k with
    | zero => exact ⟨t, h, rfl, ht, hf, rfl⟩
    | succ k ih =>
      obtain ⟨u, hu, hid, hsheet, hfree, htree⟩ := ih
      obtain ⟨⟨v, hv, hvid, hvtree⟩, -⟩ :=
        hu.transform_of_none hsheet (hu.failure_of_free hb hsheet hfree)
      rw [hid] at hv hvid
      exact ⟨v, hv, hvid, hvtree ▸ Grouping.sheet_grouped hsheet,
        hvtree ▸ Grouping.free_grouped hs hsheet,
        by rw [hvtree, Grouping.grouped_grouped hb hp hfree, htree]⟩
  obtain ⟨u, hu, hid, hsheet, hfree, htree⟩ := step
  have hok := hu.failure_of_free hb hsheet hfree
  obtain ⟨⟨v, hv, hvid, hvtree⟩, -⟩ := hu.transform_of_none hsheet hok
  have htop := hv.tree_top
  rw [hid] at hok hv hvid htop
  rw [hvid] at htop
  exact ⟨hok, htop.trans (hvtree.trans htree)⟩

end Forest.Stands

namespace Grouping

variable {o : Options} {css : Text} {t : Tree}

/-- **Repeated runs settle.** A run that ends well leaves no wrapper, all later runs
end well too, and none after the second changes the sheet. If the sheet has no
wrapper to begin with, none after the first does. -/
theorem transform_settles (hb : o.Blind) (hs : o.SparesStyles) (hp : o.sort.IsPreorder)
    (ht : Tree.parse css = .ok t) (f : Forest) :
    let root := (f.plant t).1
    let after := rerun o (f.plant t).2 root
    ((transform o (f.plant t).2 root).failure = none →
      (∀ c ∈ Tree.contentsAll ((after 1).tree root).children, o.wrapper c = false) ∧
      (∀ k, (transform o (after k) root).failure = none) ∧
      ∀ k, (after (k + 2)).tree root = (after 2).tree root) ∧
    ((∀ c ∈ Tree.contentsAll t.children, o.wrapper c = false) →
      (∀ k, (transform o (after k) root).failure = none) ∧
      ∀ k, (after (k + 1)).tree root = (after 1).tree root) := by
  intro root after
  obtain ⟨h, hid, hsheet⟩ := Tree.stands_of_parse ht f
  have hid : root = (t.planted f.size).id := hid
  have htree : (t.planted f.size).tree = t := Tree.tree_planted f.size t
  constructor
  · intro hok
    have hfree := free_grouped (o := o) hs (htree ▸ hsheet)
    obtain ⟨⟨u, hu, huid, hutree⟩, -⟩ := h.transform_of_none hsheet (hid ▸ hok)
    rw [← hid] at hu huid
    rw [htree] at hutree
    have hagain := hu.rerun_of_free hb hs hp (hutree ▸ sheet_grouped (htree ▸ hsheet))
      (hutree ▸ hfree)
    have htop := hu.tree_top
    rw [huid] at hagain htop
    have hafter : ∀ k, after (k + 1) = rerun o (transform o (f.plant t).2 root).forest root k :=
      rerun_succ o (f.plant t).2 root
    refine ⟨?_, fun k => ?_, fun k => ?_⟩
    · rw [hafter, rerun, htop, hutree]
      exact Tree.forall_contentsAll.2 hfree
    · cases k with
      | zero => exact hok
      | succ k =>
        rw [hafter]
        exact (hagain k).1
    · rw [hafter, hafter, (hagain k).2, (hagain 0).2]
  · intro hnone
    have hagain := h.rerun_of_free hb hs hp hsheet (htree.symm ▸ Tree.forall_contentsAll.1 hnone)
    rw [← hid] at hagain
    exact ⟨fun k => (hagain k).1, fun k => (hagain k).2.trans (hagain 0).2.symm⟩

/-- Here the first run removes a wrapper around a block, and the second takes it. -/
theorem transform_settles_layer : ∃ t,
    Tree.parse "@layer a{@mqgroup{@media b{c{d:e}}}}".toList = .ok t ∧
      let root := (Forest.empty.plant t).1
      let after := rerun {} (Forest.empty.plant t).2 root
      (transform {} (Forest.empty.plant t).2 root).failure = none ∧
        (∀ k, (transform {} (after k) root).failure = none) ∧
        ∀ k, (after (k + 2)).tree root = (after 2).tree root := by
  obtain ⟨t, ht, hok⟩ : ∃ t, Tree.parse "@layer a{@mqgroup{@media b{c{d:e}}}}".toList = .ok t ∧
      (transform {} (Forest.empty.plant t).2 (Forest.empty.plant t).1).failure = none :=
    ⟨_, rfl, by decide +kernel⟩
  have hblind : Options.Blind {} := .of_named rfl
  obtain ⟨-, hlater, hsame⟩ :=
    (transform_settles hblind (.of_named rfl) trivial ht Forest.empty).1 hok
  exact ⟨t, ht, hok, hlater, hsame⟩

end Grouping
end MediaGrouping
