/-
# Moving nodes of standing trees

What the operations on a forest do to the trees that stand in it: a node that is
detached is pruned and stands on its own (`stands_detach`), and a tree that is
appended to a node is grafted onto it (`stands_append`). Each is first described
entry by entry.
-/

import MediaGrouping.Forest.Edit
import MediaGrouping.Proofs.Forest.Planting

namespace MediaGrouping
namespace Forest

variable {f : Forest} {t u : Planted} {x : Site} {n p c : NodeId}

theorem children_of_get? {e : Entry} (h : f.get? n = some e) : f.children n = e.children := by
  rw [children, h]

theorem detach_of_parent?_eq_none (h : f.parent? n = none) : f.detach n = f := by
  rw [detach, h]

/-- **What detaching a node does to an entry.** -/
theorem get?_detach (hp : f.parent? n = some p) (hc : n ∈ f.children p) (m : NodeId) :
    (f.detach n).get? m = (f.get? m).map fun e =>
      ⟨e.content, e.source, if n = m then none else e.parent,
        if p = m then e.children.erase n else e.children⟩ := by
  rw [detach, hp]
  simp only [if_pos hc, setParent, setChildren, get?_modify]
  cases he : f.get? m with
  | none => split_ifs <;> rfl
  | some e => split_ifs with h₁ h₂ h₂ <;> simp_all [children_of_get? he]

/-- **What appending a node without a parent does to an entry.** -/
theorem get?_append (hc : f.parent? c = none) (m : NodeId) :
    (f.append p c).get? m = (f.get? m).map fun e =>
      ⟨if p = m then e.content.withBlock else e.content, e.source,
        if c = m then some p else e.parent, if p = m then e.children ++ [c] else e.children⟩ := by
  rw [append, detach_of_parent?_eq_none hc]
  simp only [setParent, get?_modify]
  cases f.get? m with
  | none => split_ifs <;> rfl
  | some e => split_ifs <;> rfl

theorem size_detach (f : Forest) (n : NodeId) : (f.detach n).size = f.size := by
  unfold detach setParent setChildren
  split
  · rfl
  · split_ifs <;> simp

theorem size_append (f : Forest) (p c : NodeId) : (f.append p c).size = f.size := by
  simp [append, setParent, size_detach]

namespace Stands

/-- A branch whose top has lost its parent stands on its own. -/
theorem branch {f' : Forest} (h : f.Stands t) (hx : x ∈ t.sites [])
    (hget : ∀ m ∈ x.here.ids, f'.get? m = (f.get? m).map fun e =>
      { e with parent := if x.id = m then none else e.parent }) : f'.Stands x.here := by
  have hn := h.nodup.sublist (Planted.ids_sublist hx)
  refine ⟨fun y hy => ?_, hn⟩
  have hg : f.get? y.id = some (y.under x.above).entry :=
    h.get? _ (Planted.sites_trans hx (Planted.mem_sites_under.2 ⟨y, hy, rfl⟩))
  rw [hget _ (Planted.id_mem_ids hy), hg, Planted.entry_under hn hy, Option.map_some,
    show x.here.id = x.id from rfl]
  by_cases hxy : x.id = y.id
  · simp only [if_pos hxy]
    rw [← Planted.eq_of_id_eq hn (x.here.self_mem_sites []) hy hxy]
    rfl
  · simp only [if_neg hxy]

/-- **A node that is detached is pruned and stands on its own.** -/
theorem detach (h : f.Stands t) (hx : x ∈ t.inner) :
    (f.detach x.id).Stands (t.prune (· == x.id)) ∧ (f.detach x.id).Stands x.here ∧
      Spares f (f.detach x.id) [t.id] := by
  obtain ⟨p, hp, ha, hc⟩ := Planted.exists_parent_of_inner hx
  have htop : (t.id == x.id) = false := beq_eq_false_iff_ne.2 (Planted.top_ne_inner h.nodup hx)
  have hx := Planted.mem_sites_of_mem_inner hx
  have hget := get?_detach (f := f) (n := x.id) (p := p.id)
    (by rw [h.parent? hx, ha]; rfl) (by rw [h.children hp]; exact List.mem_map_of_mem hc)
  refine ⟨⟨fun y' hy' => ?_, h.nodup.sublist (Planted.ids_prune_sublist (· == x.id) htop)⟩,
    h.branch hx fun m hm => ?_, ?_⟩
  · obtain ⟨y, hy, hne, -, rfl⟩ := (Planted.mem_sites_prune (· == x.id) htop).1 hy'
    have hne : x.id ≠ y.id := fun he => by simp [he] at hne
    have hch : (if p.id = y.id then y.entry.children.erase x.id else y.entry.children)
        = y.entry.children.filter (!· == x.id) := by
      by_cases hpy : p.id = y.id
      · rw [if_pos hpy]
        exact (Planted.children_nodup h.nodup hy).erase_eq_filter x.id
      · rw [if_neg hpy, eq_comm, List.filter_eq_self]
        intro c hc'
        rw [Bool.not_eq_true', beq_eq_false_iff_ne]
        rintro rfl
        have := Planted.above_eq_of_child h.nodup hy hx hc'
        rw [ha, List.cons.injEq] at this
        exact hpy (congrArg Label.id this.1)
    rw [Site.id_prune, hget, h.get? y hy, Option.map_some, if_neg hne, hch, Site.entry_prune]
  · have hpm : p.id ≠ m := fun he => Planted.parent_not_mem_ids h.nodup hp hx ha (he ▸ hm)
    simp only [hget, if_neg hpm]
  · refine Spares.of_get? [t] (size_detach f x.id).ge (by simpa using h) fun m _ hm => ?_
    have hm := hm t List.mem_cons_self
    have hxm : x.id ≠ m := fun he => hm (he ▸ Planted.id_mem_ids hx)
    have hpm : p.id ≠ m := fun he => hm (he ▸ Planted.id_mem_ids hp)
    simp only [hget, if_neg hxm, if_neg hpm]
    cases f.get? m <;> rfl

/-- A node that is detached stands on its own, also if nothing was above it. -/
theorem detach_site (h : f.Stands t) (hx : x ∈ t.sites []) :
    (f.detach x.id).Stands (t.prune (· == x.id)) ∧ (f.detach x.id).Stands x.here ∧
      Spares f (f.detach x.id) [t.id] := by
  rw [Planted.sites_nil, List.mem_cons] at hx
  rcases hx with rfl | hx
  · have hkept : t.prune (· == t.id) = t := Planted.prune_of_kept fun n hn =>
      beq_eq_false_iff_ne.2 fun he => Planted.id_not_mem h.nodup (he ▸ hn)
    rw [Site.id_mk, detach_of_parent?_eq_none h.parent?_top, hkept]
    exact ⟨h, h, Spares.refl f _⟩
  · exact h.detach hx

theorem disjoint (ht : f.Stands t) (hu : f.Stands u) (hne : t.id ≠ u.id) :
    t.ids.Disjoint u.ids :=
  fun _ h₁ h₂ => hne (ht.id_eq hu h₁ h₂)

/-- **A tree that is appended to a node is grafted onto it.** -/
theorem append (ht : f.Stands t) (hu : f.Stands u) (hne : t.id ≠ u.id) (hp : p ∈ t.ids) :
    (f.append p u.id).Stands (t.graft p u) ∧ Spares f (f.append p u.id) [t.id, u.id] := by
  have hget := get?_append (p := p) hu.parent?_top
  have hd := ht.disjoint hu hne
  have htop : u.id ∈ u.ids := Planted.id_mem_ids (u.self_mem_sites [])
  refine ⟨⟨fun z hz => ?_, ?_⟩, ?_⟩
  · rcases Planted.mem_sites_graft.1 hz with ⟨x, hx, rfl⟩ | ⟨x, hx, rfl, hz⟩
    · have hux : u.id ≠ x.id := fun he => hd (Planted.id_mem_ids hx) (he ▸ htop)
      rw [Site.id_graft, hget, ht.get? x hx, Option.map_some, if_neg hux, Site.entry_graft]
    · obtain ⟨y, hy, rfl⟩ := Planted.mem_sites_under.1 hz
      have hxy : x.id ≠ y.id := fun he => hd (Planted.id_mem_ids hx) (he ▸ Planted.id_mem_ids hy)
      rw [Site.id_under, hget, hu.get? y hy, Planted.entry_under hu.nodup hy, Option.map_some,
        if_neg hxy, if_neg hxy, List.map_cons, List.head?_cons, Option.map_some, Label.id_grow]
      rfl
  · exact (Planted.ids_graft_perm ht.nodup hp).nodup_iff.2
      (List.nodup_append'.2 ⟨ht.nodup, hu.nodup, hd⟩)
  · refine Spares.of_get? [t, u] (size_append f p u.id).ge (by simp [ht, hu])
      fun m _ hm => ?_
    have hpm : p ≠ m := fun he => hm t (by simp) (he ▸ hp)
    have hum : u.id ≠ m := fun he => hm u (by simp) (he ▸ htop)
    simp only [hget, if_neg hpm, if_neg hum]
    cases f.get? m <;> rfl

end Stands
end Forest
end MediaGrouping
