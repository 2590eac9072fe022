/-
# Planting and copying

A tree that is planted stands in the forest under the next free numbers
(`stands_plant`), and so does a copy of a node (`stands_copy`). The trees that
stood in the forest before still do.
-/

import MediaGrouping.Proofs.Forest.Standing

namespace MediaGrouping
namespace Tree

mutual

/-- A tree with the numbers from `first` on, in pre-order. -/
def planted (first : NodeId) : Tree → Planted
  | .node content source children =>
    .node ⟨first, content, source⟩ (plantedAll (first + 1) children)

/-- Trees with the numbers from `first` on, one after the other. -/
def plantedAll (first : NodeId) : List Tree → List Planted
  | [] => []
  | t :: ts => t.planted first :: plantedAll (first + t.size) ts

end

@[simp] theorem id_planted (first : NodeId) (t : Tree) : (t.planted first).id = first := by
  cases t; rfl

mutual

theorem tree_planted (first : NodeId) : ∀ t : Tree, (t.planted first).tree = t
  | .node _ _ cs => by rw [planted, Planted.tree, trees_plantedAll]

theorem trees_plantedAll (first : NodeId) :
    ∀ ts : List Tree, Planted.trees (plantedAll first ts) = ts
  | [] => rfl
  | t :: ts => by rw [plantedAll, Planted.trees, tree_planted first t, trees_plantedAll _ ts]

end

mutual

theorem ids_planted (first : NodeId) : ∀ t : Tree, (t.planted first).ids = List.range' first t.size
  | .node _ _ cs => by
    rw [planted, Planted.ids, ids_plantedAll, size, Nat.add_comm 1 (sizeAll cs), List.range'_succ]

theorem ids_plantedAll (first : NodeId) :
    ∀ ts : List Tree, Planted.idsAll (plantedAll first ts) = List.range' first (sizeAll ts)
  | [] => rfl
  | t :: ts => by
    rw [plantedAll, Planted.idsAll, ids_planted first t, ids_plantedAll _ ts, sizeAll,
      List.range'_append_1]

end

theorem tops_plantedAll (first : NodeId) (ts : List Tree) :
    (plantedAll first ts).map Planted.id = tops first ts := by
  induction ts generalizing first with
  | nil => rfl
  | cons t ts ih => rw [plantedAll, List.map_cons, id_planted, ih, tops]

mutual

/-- The entries made for a planted tree are those of its sites. -/
theorem entries_planted (above : List Label) (first : NodeId) :
    ∀ t : Tree, ((t.planted first).sites above).map Site.entry
      = t.entries (above.head?.map Label.id) first
  | .node c s cs => by
    rw [planted, Planted.sites, List.map_cons, entries_plantedAll, entries]
    simp only [Site.entry, Planted.children_node, tops_plantedAll]
    rfl

theorem entries_plantedAll (above : List Label) (first : NodeId) :
    ∀ ts : List Tree, (Planted.sitesAll above (plantedAll first ts)).map Site.entry
      = entriesAll (above.head?.map Label.id) first ts
  | [] => rfl
  | t :: ts => by
    rw [plantedAll, Planted.sitesAll, List.map_append, entries_planted, entries_plantedAll,
      entriesAll]

end

end Tree

namespace Forest

/-- A forest with at least the nodes of another, in which every tree of the other
still stands, those aside whose top is among `tops`. -/
structure Spares (f f' : Forest) (tops : List NodeId) : Prop where
  size_le : f.size ≤ f'.size
  stands : ∀ u, f.Stands u → u.id ∉ tops → f'.Stands u

theorem Stands.congr {f f' : Forest} {t : Planted} (h : f.Stands t)
    (he : ∀ n ∈ t.ids, f'.get? n = f.get? n) : f'.Stands t :=
  ⟨fun x hx => (he _ (Planted.id_mem_ids hx)).trans (h.get? x hx), h.nodup⟩

namespace Spares

variable {f f' f'' : Forest} {tops more : List NodeId}

theorem refl (f : Forest) (tops : List NodeId) : Spares f f tops := ⟨le_rfl, fun _ hu _ => hu⟩

theorem trans (h : Spares f f' tops) (h' : Spares f' f'' tops) : Spares f f'' tops :=
  ⟨h.size_le.trans h'.size_le, fun u hu hn => h'.stands u (h.stands u hu hn) hn⟩

theorem mono (h : Spares f f' tops) (hs : tops ⊆ more) : Spares f f' more :=
  ⟨h.size_le, fun u hu hn => h.stands u hu fun hm => hn (hs hm)⟩

/-- Numbers that are not the top of any tree but one need not be listed. -/
theorem restrict (h : Spares f f' tops)
    (hr : ∀ u, f.Stands u → u.id ∈ tops → u.id ∈ more) : Spares f f' more :=
  ⟨h.size_le, fun u hu hn => h.stands u hu fun hm => hn (hr u hu hm)⟩

/-- A change to nodes of trees with tops among `tops` spares the others. -/
theorem of_get? (ts : List Planted) (hs : f.size ≤ f'.size) (ht : ∀ t ∈ ts, f.Stands t)
    (h : ∀ n, n < f.size → (∀ t ∈ ts, n ∉ t.ids) → f'.get? n = f.get? n) :
    Spares f f' (ts.map Planted.id) := by
  refine ⟨hs, fun u hu hn => hu.congr fun n hm => h n (hu.lt_size hm) fun t hm' hn' => hn ?_⟩
  exact hu.id_eq (ht t hm') hm hn' ▸ List.mem_map_of_mem hm'

end Spares

theorem size_plant (f : Forest) (t : Tree) : (f.plant t).2.size = f.size + t.size := by
  have h := congrArg List.length (t.entries_planted [] f.size)
  rw [List.length_map, ← List.length_map Site.id, Planted.sites_map_id, t.ids_planted,
    List.length_range'] at h
  rw [plant, size, Array.size_append, List.size_toArray, h]
  rfl

/-- **A planted tree stands in the forest**, among those that stood there. -/
theorem stands_plant (f : Forest) (t : Tree) : (f.plant t).2.Stands (t.planted f.size) := by
  have hi := (Planted.sites_map_id [] (t.planted f.size)).trans (t.ids_planted f.size)
  have he := t.entries_planted [] f.size
  refine ⟨fun x hx => ?_, by rw [t.ids_planted]; exact List.nodup_range'⟩
  obtain ⟨i, hx⟩ := List.mem_iff_getElem?.1 hx
  have hid : (List.range' f.size t.size)[i]? = some x.id := by
    rw [← hi, List.getElem?_map, hx]; rfl
  have hen : (t.entries none f.size)[i]? = some x.entry := by
    rw [← show _ = t.entries none f.size from he, List.getElem?_map, hx]; rfl
  obtain ⟨hlt, hn⟩ := List.getElem?_eq_some_iff.1 hid
  rw [List.getElem_range', Nat.one_mul] at hn
  have hr : f.entries.size ≤ f.entries.size + i := Nat.le_add_right _ _
  rw [← hn, get?, plant, size, Array.getElem?_append_right hr, Nat.add_sub_cancel_left,
    List.getElem?_toArray]
  exact hen

theorem spares_plant (f : Forest) (t : Tree) : Spares f (f.plant t).2 [] :=
  ⟨by rw [size_plant]; exact Nat.le_add_right _ _,
    fun _ hu _ => hu.congr fun _ hn => get?_plant t (hu.lt_size hn)⟩

/-- A new node is a tree without branches that is planted. -/
theorem create_eq_plant (f : Forest) (c : Content) : f.create c = f.plant (.node c none []) := by
  rw [create, plant, Tree.entries, Tree.entriesAll, Tree.tops, ← Array.append_singleton]

/-- **A copy of a node stands in the forest**, under the next free numbers. -/
theorem stands_copy {f : Forest} {t : Planted} (h : f.Stands t) {x : Site} (hx : x ∈ t.sites []) :
    (f.copy x.id).1 = f.size ∧ (f.copy x.id).2.Stands (x.here.tree.planted f.size) ∧
      Spares f (f.copy x.id).2 [] := by
  rw [copy, h.tree_site hx]
  exact ⟨rfl, stands_plant _ _, spares_plant _ _⟩

end Forest
end MediaGrouping
