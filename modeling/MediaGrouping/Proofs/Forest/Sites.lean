/-
# The sites of a planted tree

What the sites of a tree know of each other: the branch at a site has its own
sites among those of the tree, a site below another has a parent site, and no
two sites share a number if the numbers of the tree are distinct. Then the sites
of the trees that `prune`, `graft` and `dissolve` make.
-/

import MediaGrouping.Proofs.Forest.Planted

namespace MediaGrouping
namespace Planted

mutual

theorem sites_map_id (above : List Label) :
    ∀ t : Planted, (t.sites above).map Site.id = t.ids
  | .node l cs => by rw [sites, ids, List.map_cons, sitesAll_map_id]; rfl

theorem sitesAll_map_id (above : List Label) :
    ∀ ts : List Planted, (sitesAll above ts).map Site.id = idsAll ts
  | [] => rfl
  | t :: ts => by rw [sitesAll, idsAll, List.map_append, sites_map_id, sitesAll_map_id]

end

theorem nodup_inner {t : Planted} (hn : t.ids.Nodup) : (t.inner.map Site.id).Nodup := by
  rw [inner, sitesAll_map_id]
  exact nodup_idsAll hn

theorem id_mem_ids {above : List Label} {t : Planted} {x : Site} (h : x ∈ t.sites above) :
    x.id ∈ t.ids :=
  sites_map_id above t ▸ List.mem_map_of_mem h

theorem exists_site {t : Planted} {n : NodeId} (h : n ∈ t.ids) (above : List Label) :
    ∃ x ∈ t.sites above, x.id = n := by
  rw [← sites_map_id above] at h
  exact List.mem_map.1 h

/-- **A site is known by its number**, the numbers of the tree being distinct. -/
theorem eq_of_id_eq {above : List Label} {t : Planted} (hn : t.ids.Nodup) {x y : Site}
    (hx : x ∈ t.sites above) (hy : y ∈ t.sites above) (h : x.id = y.id) : x = y :=
  List.inj_on_of_nodup_map (sites_map_id above t ▸ hn) hx hy h

mutual

/-- The sites of a tree below more labels are its sites with these added. -/
theorem sites_append (above more : List Label) :
    ∀ t : Planted, t.sites (above ++ more)
      = (t.sites above).map (Site.under · more)
  | .node l cs => by
    rw [sites, sites, List.map_cons, ← List.cons_append, sitesAll_append]
    rfl

theorem sitesAll_append (above more : List Label) :
    ∀ ts : List Planted, sitesAll (above ++ more) ts
      = (sitesAll above ts).map (Site.under · more)
  | [] => rfl
  | t :: ts => by rw [sitesAll, sitesAll, List.map_append, sites_append, sitesAll_append]

end

theorem mem_sites_under {more : List Label} {t : Planted} {x : Site} :
    x ∈ t.sites more ↔ ∃ y ∈ t.sites [], y.under more = x := by
  rw [← List.nil_append more, sites_append, List.mem_map, List.nil_append]

mutual

/-- **The branch at a site has its sites in the tree.** -/
theorem sites_trans {x y : Site} :
    ∀ {above : List Label} {t : Planted}, x ∈ t.sites above → y ∈ x.here.sites x.above →
      y ∈ t.sites above
  | above, .node l cs, hx, hy => by
    rw [sites, List.mem_cons] at hx
    rcases hx with rfl | hx
    · exact hy
    · exact List.mem_cons_of_mem _ (sitesAll_trans hx hy)

theorem sitesAll_trans {x y : Site} :
    ∀ {above : List Label} {ts : List Planted}, x ∈ sitesAll above ts →
      y ∈ x.here.sites x.above → y ∈ sitesAll above ts
  | _, [], hx, _ => absurd hx List.not_mem_nil
  | above, t :: ts, hx, hy => by
    rw [sitesAll, List.mem_append] at hx ⊢
    rcases hx with hx | hx
    · exact Or.inl (sites_trans hx hy)
    · exact Or.inr (sitesAll_trans hx hy)

end

mutual

theorem ids_sublist {x : Site} :
    ∀ {above : List Label} {t : Planted}, x ∈ t.sites above → x.here.ids.Sublist t.ids
  | _, .node l cs, hx => by
    rw [sites, List.mem_cons] at hx
    rcases hx with rfl | hx
    · exact List.Sublist.refl _
    · exact (ids_sublist_all hx).cons _

theorem ids_sublist_all {x : Site} :
    ∀ {above : List Label} {ts : List Planted}, x ∈ sitesAll above ts →
      x.here.ids.Sublist (idsAll ts)
  | _, [], hx => absurd hx List.not_mem_nil
  | _, t :: ts, hx => by
    rw [sitesAll, List.mem_append] at hx
    rcases hx with hx | hx
    · exact (ids_sublist hx).trans (List.sublist_append_left _ _)
    · exact (ids_sublist_all hx).trans (List.sublist_append_right _ _)

end

theorem map_id_sublist (ts : List Planted) : (ts.map id).Sublist (idsAll ts) := by
  induction ts with
  | nil => exact List.Sublist.refl _
  | cons t ts ih =>
    rw [List.map_cons, idsAll, ids_eq, List.cons_append]
    exact List.Sublist.cons_cons _ (ih.trans (List.sublist_append_right _ _))

/-- The number of a child is nowhere else in the tree. -/
theorem id_not_mem_of_split {t c : Planted} {before after : List Planted} (hn : t.ids.Nodup)
    (hs : t.children = before ++ c :: after) :
    t.id ≠ c.id ∧ c.id ∉ idsAll before ∧ c.id ∉ idsAll c.children ∧ c.id ∉ idsAll after := by
  rw [ids_eq, hs, idsAll_append, idsAll, ids_eq c, List.cons_append] at hn
  obtain ⟨ht, hn⟩ := List.nodup_cons.1 hn
  obtain ⟨hc, -⟩ := List.nodup_cons.1 ((List.nodup_middle).1 hn)
  refine ⟨fun he => ht (he ▸ by simp), fun h => hc ?_, fun h => hc ?_, fun h => hc ?_⟩
  · exact List.mem_append_left _ h
  · exact List.mem_append_right _ (List.mem_append_left _ h)
  · exact List.mem_append_right _ (List.mem_append_right _ h)

/-- The children of a node have distinct numbers if the nodes of the tree have. -/
theorem children_nodup {above : List Label} {t : Planted} (hn : t.ids.Nodup) {x : Site}
    (hx : x ∈ t.sites above) : (x.here.children.map id).Nodup := by
  exact (nodup_idsAll (hn.sublist (ids_sublist hx))).sublist (map_id_sublist _)

/-- The children of a site's node have sites. -/
theorem child_mem_sites {above : List Label} {t : Planted} {x : Site} (hx : x ∈ t.sites above)
    {c : Planted} (hc : c ∈ x.here.children) : ⟨x.here.label :: x.above, c⟩ ∈ t.sites above := by
  refine sites_trans hx ?_
  rw [sites_eq]
  exact List.mem_cons_of_mem _ (mem_sitesAll.2 ⟨c, hc, self_mem_sites _ c⟩)

mutual

/-- **A site is the top or has a parent site.** -/
theorem exists_parent {x : Site} :
    ∀ {above : List Label} {t : Planted}, x ∈ t.sites above →
      x = ⟨above, t⟩ ∨ ∃ p ∈ t.sites above, x.above = p.here.label :: p.above ∧
        x.here ∈ p.here.children
  | above, .node l cs, hx => by
    rw [sites, List.mem_cons] at hx
    rcases hx with rfl | hx
    · exact Or.inl rfl
    · right
      rcases exists_parentAll hx with ⟨ha, hc⟩ | ⟨p, hp, ha, hc⟩
      · exact ⟨⟨above, .node l cs⟩, self_mem_sites _ _, ha, hc⟩
      · exact ⟨p, List.mem_cons_of_mem _ hp, ha, hc⟩

theorem exists_parentAll {x : Site} :
    ∀ {above : List Label} {ts : List Planted}, x ∈ sitesAll above ts →
      (x.above = above ∧ x.here ∈ ts) ∨ ∃ p ∈ sitesAll above ts,
        x.above = p.here.label :: p.above ∧ x.here ∈ p.here.children
  | _, [], hx => absurd hx List.not_mem_nil
  | above, t :: ts, hx => by
    rw [sitesAll, List.mem_append] at hx
    rcases hx with hx | hx
    · rcases exists_parent hx with rfl | ⟨p, hp, ha, hc⟩
      · exact Or.inl ⟨rfl, List.mem_cons_self⟩
      · exact Or.inr ⟨p, List.mem_append_left _ hp, ha, hc⟩
    · rcases exists_parentAll hx with ⟨ha, hc⟩ | ⟨p, hp, ha, hc⟩
      · exact Or.inl ⟨ha, List.mem_cons_of_mem _ hc⟩
      · exact Or.inr ⟨p, List.mem_append_right _ hp, ha, hc⟩

end

/-- A site below the top has a parent site. -/
theorem exists_parent_of_inner {t : Planted} {x : Site} (hx : x ∈ t.inner) :
    ∃ p ∈ t.sites [], x.above = p.here.label :: p.above ∧ x.here ∈ p.here.children := by
  rcases exists_parentAll hx with ⟨ha, hc⟩ | ⟨p, hp, ha, hc⟩
  · exact ⟨⟨[], t⟩, self_mem_sites _ _, ha, hc⟩
  · exact ⟨p, mem_sites_of_mem_inner hp, ha, hc⟩

mutual

/-- **A label above a site is that of a site**, and the site is below it. -/
theorem exists_site_above {x : Site} {l : Label} :
    ∀ {above : List Label} {t : Planted}, x ∈ t.sites above → l ∈ x.above →
      l ∈ above ∨ ∃ p ∈ t.sites above, p.here.label = l ∧
        x ∈ sitesAll (l :: p.above) p.here.children
  | above, .node k cs, hx, hl => by
    rw [sites, List.mem_cons] at hx
    rcases hx with rfl | hx
    · exact Or.inl hl
    · rcases exists_site_aboveAll hx hl with hl | ⟨p, hp, hpl, hpx⟩
      · rcases List.mem_cons.1 hl with rfl | hl
        · exact Or.inr ⟨⟨above, .node l cs⟩, self_mem_sites _ _, rfl, hx⟩
        · exact Or.inl hl
      · exact Or.inr ⟨p, List.mem_cons_of_mem _ hp, hpl, hpx⟩

theorem exists_site_aboveAll {x : Site} {l : Label} :
    ∀ {above : List Label} {ts : List Planted}, x ∈ sitesAll above ts → l ∈ x.above →
      l ∈ above ∨ ∃ p ∈ sitesAll above ts, p.here.label = l ∧
        x ∈ sitesAll (l :: p.above) p.here.children
  | _, [], hx, _ => absurd hx List.not_mem_nil
  | above, t :: ts, hx, hl => by
    rw [sitesAll, List.mem_append] at hx
    rcases hx with hx | hx
    · exact (exists_site_above hx hl).imp_right fun ⟨p, hp, h⟩ => ⟨p, List.mem_append_left _ hp, h⟩
    · exact (exists_site_aboveAll hx hl).imp_right
        fun ⟨p, hp, h⟩ => ⟨p, List.mem_append_right _ hp, h⟩

end

/-- **The labels above a site from some label on** are those above the site of that label. -/
theorem exists_site_of_suffix {t : Planted} {l : Label} {rest : List Label} :
    ∀ {path : List Label} {x : Site}, x ∈ t.sites [] → x.above = path ++ l :: rest →
      ∃ p ∈ t.sites [], p.here.label = l ∧ p.above = rest := by
  intro path
  induction path with
  | nil =>
    intro x hx ha
    rcases exists_parent hx with rfl | ⟨p, hp, hpa, -⟩
    · cases ha
    · obtain ⟨rfl, hr⟩ := List.cons.inj (hpa.symm.trans ha)
      exact ⟨p, hp, rfl, hr⟩
  | cons k path ih =>
    intro x hx ha
    rcases exists_parent hx with rfl | ⟨p, hp, hpa, -⟩
    · cases ha
    · exact ih hp (List.cons.inj (hpa.symm.trans ha)).2

/-- A site right below the top is that of a child. -/
theorem child_of_above {t : Planted} {x : Site} (hx : x ∈ t.sites []) {l : Label}
    (ha : x.above = [l]) : l = t.label ∧ x.here ∈ t.children := by
  rcases exists_parent hx with rfl | ⟨p, hp, hpa, hc⟩
  · cases ha
  · rw [ha, List.cons.injEq] at hpa
    rcases exists_parent hp with rfl | ⟨q, -, hqa, -⟩
    · exact ⟨hpa.1, hc⟩
    · rw [hqa] at hpa
      cases hpa.2

mutual

/-- **Nothing comes before what stands above it**, in pre-order. -/
theorem sites_pairwise : ∀ (above : List Label) (t : Planted),
    (above.map Label.id ++ t.ids).Nodup →
      (t.sites above).Pairwise fun x y => y.id ∉ x.above.map Label.id
  | above, .node l cs, hn => by
    rw [sites, List.pairwise_cons]
    rw [ids] at hn
    refine ⟨fun y hy hm => ?_, sitesAll_pairwise (l :: above) cs ?_⟩
    · refine (List.nodup_append'.1 hn).2.2 hm (List.mem_cons_of_mem _ ?_)
      rw [← sitesAll_map_id (l :: above)]
      exact List.mem_map_of_mem hy
    · rw [List.map_cons, List.cons_append]
      exact (List.perm_middle.nodup_iff).1 hn

theorem sitesAll_pairwise : ∀ (above : List Label) (ts : List Planted),
    (above.map Label.id ++ idsAll ts).Nodup →
      (sitesAll above ts).Pairwise fun x y => y.id ∉ x.above.map Label.id
  | _, [], _ => List.Pairwise.nil
  | above, t :: ts, hn => by
    rw [idsAll] at hn
    have h₁ : (above.map Label.id ++ t.ids).Nodup :=
      hn.sublist ((List.sublist_append_left _ _).append_left _)
    have h₂ : (above.map Label.id ++ idsAll ts).Nodup :=
      hn.sublist ((List.sublist_append_right _ _).append_left _)
    rw [sitesAll, List.pairwise_append]
    refine ⟨sites_pairwise above t h₁, sitesAll_pairwise above ts h₂, fun x hx y hy hm => ?_⟩
    have hyt : y.id ∈ idsAll ts := by
      rw [← sitesAll_map_id above]
      exact List.mem_map_of_mem hy
    obtain ⟨l, hl, hly⟩ := List.mem_map.1 hm
    rcases exists_site_above hx hl with hl | ⟨p, hp, rfl, -⟩
    · exact (List.nodup_append'.1 h₂).2.2 (List.mem_map_of_mem hl) (hly ▸ hyt)
    · have hpy : p.id = y.id := hly
      rw [← List.append_assoc] at hn
      exact (List.nodup_append'.1 hn).2.2 (List.mem_append_right _ (id_mem_ids hp)) (hpy ▸ hyt)

end

/-- A node is the child of one node only. -/
theorem above_eq_of_child {t : Planted} (hn : t.ids.Nodup) {p x : Site} (hp : p ∈ t.sites [])
    (hx : x ∈ t.sites []) (h : x.id ∈ p.here.children.map id) :
    x.above = p.here.label :: p.above := by
  obtain ⟨c, hc, hi⟩ := List.mem_map.1 h
  rw [← eq_of_id_eq hn (child_mem_sites hp hc) hx hi]

/-- What stands above the sites of trees is what stood above them, and more. -/
theorem above_of_mem_sitesAll {above : List Label} {ts : List Planted} {x : Site}
    (h : x ∈ sitesAll above ts) : ∃ path, x.above = path ++ above := by
  rw [← List.nil_append above, sitesAll_append] at h
  obtain ⟨y, -, rfl⟩ := List.mem_map.1 h
  exact ⟨y.above, rfl⟩

theorem above_of_mem_sites {above : List Label} {t : Planted} {x : Site}
    (h : x ∈ t.sites above) : ∃ path, x.above = path ++ above :=
  above_of_mem_sitesAll (by rw [sitesAll_singleton]; exact h)

/-- A site has its like in the same trees below other labels. -/
theorem exists_site_elsewhere {above : List Label} {ts : List Planted} {x : Site}
    (h : x ∈ sitesAll above ts) : ∃ path, x.above = path ++ above ∧
      ∀ more, ⟨path ++ more, x.here⟩ ∈ sitesAll more ts := by
  rw [← List.nil_append above, sitesAll_append] at h
  obtain ⟨y, hy, rfl⟩ := List.mem_map.1 h
  refine ⟨y.above, rfl, fun more => ?_⟩
  rw [← List.nil_append more, sitesAll_append]
  exact List.mem_map_of_mem hy

theorem length_lt_of_below {l : Label} {above : List Label} {ts : List Planted} {x : Site}
    (h : x ∈ sitesAll (l :: above) ts) : above.length < x.above.length := by
  obtain ⟨path, hp⟩ := above_of_mem_sitesAll h
  rw [hp, List.length_append, List.length_cons]
  omega

/-- Below more labels only the top of a tree has another parent. -/
theorem entry_under {t : Planted} (hn : t.ids.Nodup) {x : Site} (hx : x ∈ t.sites [])
    (more : List Label) : (x.under more).entry =
      { x.entry with
        parent := if t.id = x.id then more.head?.map Label.id else x.entry.parent } := by
  rcases exists_parent hx with rfl | ⟨p, -, ha, -⟩
  · simp [Site.entry, Site.under]
  · have hne : t.id ≠ x.id := fun he => by
      rw [← eq_of_id_eq hn (t.self_mem_sites []) hx he] at ha
      cases ha
    simp only [if_neg hne, Site.entry, Site.under, ha, List.cons_append, List.head?_cons]

/-- The parent of a branch is not part of it. -/
theorem parent_not_mem_ids {t : Planted} (hn : t.ids.Nodup) {p x : Site} (hp : p ∈ t.sites [])
    (hx : x ∈ t.sites []) (ha : x.above = p.here.label :: p.above) : p.id ∉ x.here.ids := by
  intro hm
  obtain ⟨y, hy, hi⟩ := exists_site hm x.above
  have := eq_of_id_eq hn (sites_trans hx hy) hp hi
  subst this
  obtain ⟨path, hpath⟩ := above_of_mem_sites hy
  have hl := congrArg List.length hpath
  rw [ha, List.length_append, List.length_cons] at hl
  omega

/-- A site of a tree is its top, or has the top among what stands above it. -/
theorem top_mem_above {above : List Label} {t : Planted} {x : Site} (h : x ∈ t.sites above) :
    x = ⟨above, t⟩ ∨ t.label ∈ x.above := by
  rw [sites_eq, List.mem_cons] at h
  refine h.imp_right fun h => ?_
  obtain ⟨path, hp⟩ := above_of_mem_sitesAll h
  rw [hp]
  exact List.mem_append_right _ List.mem_cons_self

theorem top_ne_inner {t : Planted} (hn : t.ids.Nodup) {x : Site} (hx : x ∈ t.inner) :
    t.id ≠ x.id := by
  intro he
  obtain ⟨p, -, ha, -⟩ := exists_parent_of_inner hx
  rw [← eq_of_id_eq hn (t.self_mem_sites []) (mem_sites_of_mem_inner hx) he] at ha
  cases ha

/-- The sites below the top are those with a label above them. -/
theorem mem_inner_iff {t : Planted} {x : Site} : x ∈ t.inner ↔ x ∈ t.sites [] ∧ x.above ≠ [] := by
  refine ⟨fun h => ⟨mem_sites_of_mem_inner h, fun ha => ?_⟩, fun ⟨h, ha⟩ => ?_⟩
  · obtain ⟨p, -, hp, -⟩ := exists_parent_of_inner h
    rw [ha] at hp
    cases hp
  · rw [sites_nil, List.mem_cons] at h
    exact h.resolve_left fun he => ha (he ▸ rfl)

mutual

/-- What stands above a site, and the levels from it on, are levels of the tree. -/
theorem above_add_height {x : Site} :
    ∀ {above : List Label} {t : Planted}, x ∈ t.sites above →
      x.above.length + x.here.height ≤ above.length + t.height
  | above, .node l cs, hx => by
    rw [sites, List.mem_cons] at hx
    rcases hx with rfl | hx
    · exact Nat.le_refl _
    · have h := above_add_heightAll hx
      rw [List.length_cons] at h
      rw [height]
      omega

theorem above_add_heightAll {x : Site} :
    ∀ {above : List Label} {ts : List Planted}, x ∈ sitesAll above ts →
      x.above.length + x.here.height ≤ above.length + heightAll ts
  | _, [], hx => absurd hx List.not_mem_nil
  | above, t :: ts, hx => by
    rw [sitesAll, List.mem_append] at hx
    rw [heightAll]
    rcases hx with hx | hx
    · have h := above_add_height hx
      omega
    · have h := above_add_heightAll hx
      omega

end

mutual

theorem height_le_length : ∀ t : Planted, t.height ≤ t.ids.length
  | .node l cs => by
    rw [height, ids, List.length_cons]
    exact Nat.succ_le_succ (heightAll_le_length cs)

theorem heightAll_le_length : ∀ ts : List Planted, heightAll ts ≤ (idsAll ts).length
  | [] => Nat.le_refl 0
  | t :: ts => by
    have h₁ := height_le_length t
    have h₂ := heightAll_le_length ts
    rw [heightAll, idsAll, List.length_append]
    omega

end

theorem height_le_heightAll {t : Planted} {ts : List Planted} (h : t ∈ ts) :
    t.height ≤ heightAll ts := by
  induction ts with
  | nil => exact absurd h List.not_mem_nil
  | cons u ts ih =>
    rw [heightAll]
    rcases List.mem_cons.1 h with rfl | h
    · exact Nat.le_max_left _ _
    · exact Nat.le_trans (ih h) (Nat.le_max_right _ _)

theorem eq_nil_of_heightAll {ts : List Planted} (h : heightAll ts = 0) : ts = [] := by
  cases ts with
  | nil => rfl
  | cons t ts =>
    obtain ⟨l, cs⟩ := t
    rw [heightAll, height] at h
    omega

end Planted
end MediaGrouping
