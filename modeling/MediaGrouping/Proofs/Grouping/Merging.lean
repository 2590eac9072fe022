/-
# Merging copies

A group keeps copies, which stand in the forest on their own. Blocks are told
apart by their query lists (`Group.queryOf_eq`), and taking one in
(`Stands.absorb`) merges its tree with those of the copies (`Grouping.mergeBlock`)
and leaves the block standing on its own, out of its tree.
-/

import MediaGrouping.Proofs.Forest.Gathering
import MediaGrouping.Proofs.Grouping.Leaving
import MediaGrouping.Proofs.Registry

namespace MediaGrouping

open Grouping (mergeBlock)

namespace Planted

theorem tree_extend (t : Planted) (us : List Planted) :
    (t.extend us).tree = t.tree.extend (trees us) := by
  cases us with
  | nil => rfl
  | cons u us =>
    obtain ⟨l, cs⟩ := t
    rw [extend_cons, label_node, id_node, tree, trees_append, Label.source_grow, Label.grow,
      if_pos rfl]
    rfl

theorem tree_enclosed (n : NodeId) (rule : AtRule) (t : Planted) :
    (t.enclosed n rule).tree = t.tree.enclosed rule := by
  obtain ⟨l, cs⟩ := t
  rw [enclosed, tree, label_node, id_node, Label.source_grow, Label.grow, if_pos rfl]
  rfl

end Planted

/-- The numbers of the copies that a registry keeps. -/
def Registry.tops (m : Registry Planted) : List NodeId := m.map (·.2.id)

/-- The other copies of a registry have other numbers. -/
theorem Registry.others_of_split {m before after : Registry Planted} {k : Text} {u : Planted}
    (hs : m = before ++ (k, u) :: after) (hn : m.tops.Nodup) :
    ∀ e ∈ before ++ after, e ∈ m ∧ e.2.id ≠ u.id := by
  subst hs
  intro e he
  rw [Registry.tops, List.map_append, List.map_cons, List.nodup_middle, List.nodup_cons,
    ← List.map_append] at hn
  refine ⟨?_, fun heu => hn.1 (heu ▸ List.mem_map_of_mem (f := fun e => e.2.id) he)⟩
  rw [List.perm_middle.mem_iff]
  exact List.mem_cons_of_mem _ he

/-- **The query list of a node**: the parameters of the at-rule that it is, and the empty text
if it is none. -/
def Forest.queryList (f : Forest) (n : NodeId) : Text := ((f.atRule? n).map AtRule.params).getD []

/-- **Groups tell blocks apart by their query lists.** -/
theorem Group.queryOf_eq (f : Forest) (n : NodeId) : Group.queryOf f n = f.queryList n := by
  rw [Group.queryOf, Forest.queryList]
  cases f.atRule? n <;> rfl

namespace Forest

variable {f : Forest} {t u : Planted} {x : Site}

theorem queryList_site (h : f.Stands t) (hx : x ∈ t.sites []) :
    f.queryList x.id = x.here.tree.query := by
  rw [← Group.queryOf_eq, Group.queryOf, h.atRule? hx, ← Planted.content_tree]
  rfl

theorem queryOf_site (h : f.Stands t) (hx : x ∈ t.sites []) :
    Group.queryOf f x.id = x.here.tree.query :=
  (Group.queryOf_eq f x.id).trans (queryList_site h hx)

namespace Stands

/-- **Appending copies of nodes to a tree** extends it by trees like theirs. -/
theorem appendCopies (ds : List Planted) :
    ∀ {f : Forest} {u : Planted}, f.Stands t → f.Stands u → t.id ≠ u.id →
      (∀ d ∈ ds, ∃ above, ⟨above, d⟩ ∈ t.sites []) →
      ∃ us, Planted.trees us = Planted.trees ds ∧
        (Group.appendCopies f u.id (ds.map Planted.id)).Stands (u.extend us) ∧
        Spares f (Group.appendCopies f u.id (ds.map Planted.id)) [u.id] := by
  induction ds with
  | nil => intro f u _ hu _ _; exact ⟨[], rfl, hu, Spares.refl f _⟩
  | cons d ds ih =>
    intro f u ht hu hne hd
    obtain ⟨above, hda⟩ := hd d List.mem_cons_self
    obtain ⟨hi, hv, hs₁⟩ := stands_copy ht hda
    have hvid : (d.tree.planted f.size).id = f.size := Tree.id_planted _ _
    have hne' : u.id ≠ (d.tree.planted f.size).id := fun he =>
      (hu.lt_size u.self_mem_ids).ne (he.trans hvid)
    have hu₁ := hs₁.stands u hu List.not_mem_nil
    obtain ⟨hu₂, hs₂⟩ := hu₁.append_top hv hne'
    rw [hvid, ← hi] at hu₂
    rw [hvid, ← hi] at hs₂
    have hs : Spares f _ [u.id] := ((hs₁.mono (List.nil_subset _)).trans hs₂).restrict
      fun w hw hm => by
        rcases List.mem_cons.1 hm with hm | hm
        · exact hm ▸ List.mem_cons_self
        · exact absurd (List.mem_singleton.1 hm) ((hw.lt_size w.self_mem_ids).trans_eq hi.symm).ne
    have ht₂ := hs.stands t ht (by simpa using hne)
    obtain ⟨us, hus, hu₃, hs₃⟩ := ih ht₂ hu₂ (by rwa [Planted.id_extend])
      fun e he => hd e (List.mem_cons_of_mem _ he)
    rw [Planted.id_extend, Planted.extend_extend] at hu₃
    rw [Planted.id_extend] at hs₃
    rw [List.map_cons, Group.appendCopies]
    refine ⟨_ :: us, ?_, hu₃, hs.trans hs₃⟩
    rw [Planted.trees, Planted.trees, Tree.tree_planted, hus]

end Stands

/-- **What taking in the block at a site leaves**: the copies of a group with the
block merged into them, and the block out of its tree. -/
structure Absorbed (f f' : Forest) (t : Planted) (x : Site) (m m' : Registry Planted) : Prop where
  merged : m'.mapValues Planted.tree = mergeBlock (m.mapValues Planted.tree) x.here.tree
  pruned : f'.Stands (t.prune (· == x.id))
  apart : f'.Stands x.here
  copies : ∀ e ∈ m', f'.Stands e.2
  tops : m'.tops = m.tops ∨ m'.tops = m.tops ++ [f.size]
  spares : Spares f f' (t.id :: m.tops)

namespace Stands

variable {g : Group} {m : Registry Planted}

/-- The first block with its query list is copied whole. -/
theorem absorb_new (h : f.Stands t) (hx : x ∈ t.sites []) (hg : g.merged = m.mapValues Planted.id)
    (hm : ∀ e ∈ m, f.Stands e.2) (ht : t.id ∉ m.tops)
    (hk : Registry.find? m x.here.tree.query = none) :
    ∃ m' : Registry Planted, (g.absorb f x.id).1 = { g with merged := m'.mapValues Planted.id } ∧
      Absorbed f (g.absorb f x.id).2 t x m m' := by
  obtain ⟨hi, hv, hs₁⟩ := stands_copy h hx
  set v := x.here.tree.planted f.size with hvdef
  have hvid : v.id = f.size := Tree.id_planted _ _
  obtain ⟨h₂, hb, hs₂⟩ := (hs₁.stands t h List.not_mem_nil).detach_site hx
  have habs : g.absorb f x.id
      = ({ g with merged := g.merged ++ [(x.here.tree.query, (f.copy x.id).1)] },
        (f.copy x.id).2.detach x.id) := by
    simp only [Group.absorb, queryOf_site h hx, hg, Registry.find?_mapValues, hk, Option.map_none]
  rw [habs]
  refine ⟨m ++ [(x.here.tree.query, v)], ?_, ?_, h₂, hb, ?_, Or.inr ?_,
    (hs₁.mono (List.nil_subset _)).trans (hs₂.mono (List.cons_subset_cons _ (List.nil_subset _)))⟩
  · rw [hg, hi, ← hvid, Registry.mapValues, Registry.mapValues, List.map_append]
    rfl
  · rw [mergeBlock, Registry.update_of_find?_none _ (by rw [Registry.find?_mapValues, hk]; rfl),
      Registry.mapValues, List.map_append, ← Registry.mapValues, List.map_singleton, hvdef,
      Tree.tree_planted]
  · intro e he
    rcases List.mem_append.1 he with he | he
    · refine hs₂.stands _ (hs₁.stands _ (hm e he) List.not_mem_nil) fun het => ht ?_
      exact List.mem_singleton.1 het ▸ List.mem_map_of_mem (f := fun e => e.2.id) he
    · rw [List.mem_singleton.1 he]
      refine hs₂.stands v hv fun het => ?_
      exact (h.lt_size t.self_mem_ids).ne ((List.mem_singleton.1 het).symm.trans hvid)
  · rw [Registry.tops, List.map_append, List.map_singleton, hvid]
    rfl

/-- Of a later block the children are copied to the end of the first one's copy. -/
theorem absorb_known (h : f.Stands t) (hx : x ∈ t.sites []) (hg : g.merged = m.mapValues Planted.id)
    (hm : ∀ e ∈ m, f.Stands e.2) (hn : m.tops.Nodup) (ht : t.id ∉ m.tops) {u : Planted}
    (hk : Registry.find? m x.here.tree.query = some u) :
    ∃ m' : Registry Planted, (g.absorb f x.id).1 = { g with merged := m'.mapValues Planted.id } ∧
      Absorbed f (g.absorb f x.id).2 t x m m' := by
  have hum := Registry.mem_of_find? hk
  have hu : f.Stands u := hm _ hum
  have hut : t.id ≠ u.id := fun he =>
    ht (he ▸ List.mem_map_of_mem (f := fun e : Text × Planted => e.2.id) hum)
  obtain ⟨us, hus, hu₁, hs₁⟩ := appendCopies x.here.children h hu hut
    fun d hd => ⟨_, Planted.child_mem_sites hx hd⟩
  rw [← h.children hx] at hu₁ hs₁
  obtain ⟨h₂, hb, hs₂⟩ := (hs₁.stands t h (by simpa using hut)).detach_site hx
  have habs : g.absorb f x.id
      = (g, (Group.appendCopies f u.id (f.children x.id)).detach x.id) := by
    simp only [Group.absorb, queryOf_site h hx, hg, Registry.find?_mapValues, hk, Option.map_some]
  obtain ⟨before, after, hsplit, hupd⟩ :=
    Registry.update_of_find?_some (fun _ => u.extend us) hk
  have htops : m.tops = before.map (·.2.id) ++ u.id :: after.map (·.2.id) := by
    rw [hsplit, Registry.tops, List.map_append, List.map_cons]
  have hids : Registry.mapValues Planted.id (m.update x.here.tree.query fun _ => u.extend us)
      = g.merged := by
    rw [hupd, hg, hsplit, Registry.mapValues, Registry.mapValues]
    simp only [List.map_append, List.map_cons, Planted.id_extend]
  have hs : Spares f _ (t.id :: m.tops) :=
    (hs₁.mono (by simp [htops])).trans (hs₂.mono (List.cons_subset_cons _ (List.nil_subset _)))
  rw [habs]
  refine ⟨m.update x.here.tree.query fun _ => u.extend us, by rw [hids], ?_, h₂, hb, ?_, Or.inl ?_,
    hs⟩
  · refine Registry.mapValues_update ?_
    rw [hk, Planted.tree_extend, hus, ← Planted.children_tree]
    rfl
  · intro e he
    rw [hupd, List.perm_middle.mem_iff, List.mem_cons] at he
    rcases he with rfl | he
    · exact hs₂.stands _ hu₁ (by rw [Planted.id_extend]; simpa using Ne.symm hut)
    · obtain ⟨hem, heu⟩ := Registry.others_of_split hsplit hn e he
      have het : e.2.id ≠ t.id := fun het =>
        ht (het ▸ List.mem_map_of_mem (f := fun e => e.2.id) hem)
      exact hs₂.stands _ (hs₁.stands _ (hm e hem) (by simpa using heu)) (by simpa using het)
  · rw [hupd, htops, Registry.tops, List.map_append, List.map_cons, Planted.id_extend]

/-- **Taking a block into a group** merges it with the copies that the group
keeps, and prunes it from its tree. -/
theorem absorb (h : f.Stands t) (hx : x ∈ t.sites []) (hg : g.merged = m.mapValues Planted.id)
    (hm : ∀ e ∈ m, f.Stands e.2) (hn : m.tops.Nodup) (ht : t.id ∉ m.tops) :
    ∃ m' : Registry Planted, (g.absorb f x.id).1 = { g with merged := m'.mapValues Planted.id } ∧
      Absorbed f (g.absorb f x.id).2 t x m m' := by
  cases hk : Registry.find? m x.here.tree.query with
  | none => exact h.absorb_new hx hg hm ht hk
  | some u => exact h.absorb_known hx hg hm hn ht hk

end Stands
end Forest
end MediaGrouping
