/-
# The sites of changed trees

The sites of a tree whose branches have been cut off, to which a branch has been
added, or of which nodes have been replaced by their children, in terms of the
sites of the tree as it was. Cutting and replacing keep the order of the sites;
a new branch comes somewhere among them.
-/

import MediaGrouping.Proofs.Forest.Sites

namespace MediaGrouping
namespace Planted

/-- No site of a branch that is cut off is spared. -/
theorem filter_spared_of_cut {cut : NodeId → Bool} (above : List Label) {t : Planted}
    (h : cut t.id = true) : (t.sites above).filter (Site.spared cut) = [] := by
  refine List.filter_eq_nil_iff.2 fun x hx hs => ?_
  rw [Site.spared, Bool.and_eq_true, List.all_eq_true] at hs
  rcases top_mem_above hx with rfl | ht
  · simp [h] at hs
  · simpa [h] using hs.2 _ ht

mutual

/-- **The sites of a pruned tree**: those that are spared. -/
theorem sitesAll_prune (cut : NodeId → Bool) {above : List Label}
    (ha : above.all (!cut ·.id) = true) :
    ∀ {t : Planted}, cut t.id = false → (t.prune cut).sites above
      = ((t.sites above).filter (Site.spared cut)).map (Site.prune cut)
  | .node l cs, ht => by
    have hs : Site.spared cut ⟨above, .node l cs⟩ = true := by
      rw [Site.spared, ha, Bool.and_true]; simpa using ht
    have hl : (l :: above).all (!cut ·.id) = true := by
      rw [List.all_cons, ha, Bool.and_true]; simpa using ht
    rw [prune, sites, sites, List.filter_cons_of_pos hs, List.map_cons, sitesAll_pruneAll cut hl]
    rfl

theorem sitesAll_pruneAll (cut : NodeId → Bool) {above : List Label}
    (ha : above.all (!cut ·.id) = true) :
    ∀ ts : List Planted, sitesAll above (pruneAll cut ts)
      = ((sitesAll above ts).filter (Site.spared cut)).map (Site.prune cut)
  | [] => rfl
  | t :: ts => by
    rw [pruneAll, sitesAll, List.filter_append, List.map_append]
    by_cases ht : cut t.id = true
    · rw [if_pos ht, filter_spared_of_cut above ht, List.map_nil, List.nil_append,
        sitesAll_pruneAll cut ha ts]
    · have ht := Bool.eq_false_iff.2 ht
      rw [if_neg (by simp [ht]), sitesAll, sitesAll_prune cut ha ht, sitesAll_pruneAll cut ha ts]

end

theorem sites_prune (cut : NodeId → Bool) {t : Planted} (ht : cut t.id = false) :
    (t.prune cut).sites [] = ((t.sites []).filter (Site.spared cut)).map (Site.prune cut) :=
  sitesAll_prune cut rfl ht

theorem mem_sites_prune (cut : NodeId → Bool) {t : Planted} (ht : cut t.id = false) {y : Site} :
    y ∈ (t.prune cut).sites [] ↔
      ∃ x ∈ t.sites [], cut x.id = false ∧ (∀ l ∈ x.above, cut l.id = false) ∧ y = x.prune cut := by
  rw [sites_prune cut ht, List.mem_map]
  simp only [List.mem_filter, Site.spared, Bool.and_eq_true, List.all_eq_true, Bool.not_eq_true']
  grind

theorem ids_prune_sublist (cut : NodeId → Bool) {t : Planted} (ht : cut t.id = false) :
    (t.prune cut).ids.Sublist t.ids := by
  rw [← sites_map_id [], ← sites_map_id [] t, sites_prune cut ht, List.map_map]
  rw [show Site.id ∘ Site.prune cut = Site.id from funext fun x => x.id_prune cut]
  exact List.Sublist.map _ List.filter_sublist

mutual

/-- **The sites of a tree with a new branch**: those it had, and those of the
branch below the node it was added to. -/
theorem sites_graft (n : NodeId) (b : Planted) :
    ∀ (above : List Label) (t : Planted),
      ((t.graft n b).sites (above.map (Label.grow n))).Perm
        ((t.sites above).map (Site.graft n b) ++ ((t.sites above).filter (·.id == n)).flatMap
          fun x => b.sites ((x.here.label :: x.above).map (Label.grow n)))
  | above, .node l cs => by
    have ih := sitesAll_graftAll n b (l :: above) cs
    rw [List.map_cons] at ih
    rw [graft, sites, sites, List.map_cons, sitesAll_concat]
    refine List.Perm.cons _ ?_
    by_cases hl : l.id = n
    · rw [if_pos hl, sitesAll_singleton, List.filter_cons_of_pos (by simpa using hl),
        List.flatMap_cons]
      refine (ih.append_right _).trans ?_
      rw [List.append_assoc]
      exact List.Perm.append_left _ List.perm_append_comm
    · rw [if_neg hl, sitesAll, List.append_nil, List.filter_cons_of_neg (by simpa using hl)]
      exact ih

theorem sitesAll_graftAll (n : NodeId) (b : Planted) :
    ∀ (above : List Label) (ts : List Planted),
      (sitesAll (above.map (Label.grow n)) (graftAll n ts b)).Perm
        ((sitesAll above ts).map (Site.graft n b) ++
          ((sitesAll above ts).filter (·.id == n)).flatMap
            fun x => b.sites ((x.here.label :: x.above).map (Label.grow n)))
  | _, [] => by rw [graftAll, sitesAll, sitesAll]; exact List.Perm.refl _
  | above, t :: ts => by
    have h₁ := sites_graft n b above t
    have h₂ := sitesAll_graftAll n b above ts
    rw [graftAll, sitesAll, sitesAll, List.map_append, List.filter_append, List.flatMap_append]
    refine (h₁.append h₂).trans ?_
    rw [List.append_assoc, List.append_assoc]
    exact List.Perm.append_left _ (List.perm_append_comm_assoc _ _ _)

end

theorem mem_sites_graft {n : NodeId} {b t : Planted} {y : Site} :
    y ∈ (t.graft n b).sites [] ↔ (∃ x ∈ t.sites [], y = x.graft n b) ∨
      ∃ x ∈ t.sites [], x.id = n ∧ y ∈ b.sites ((x.here.label :: x.above).map (Label.grow n)) := by
  have h := (sites_graft n b [] t).mem_iff (a := y)
  rw [List.map_nil] at h
  rw [h, List.mem_append, List.mem_map, List.mem_flatMap]
  simp only [List.mem_filter, beq_iff_eq]
  grind

theorem filter_id_eq {above : List Label} {t : Planted} (hn : t.ids.Nodup) {x : Site}
    (hx : x ∈ t.sites above) : (t.sites above).filter (·.id == x.id) = [x] := by
  obtain ⟨before, after, h⟩ := List.append_of_mem hx
  rw [← sites_map_id above, h, List.map_append, List.map_cons, List.nodup_append] at hn
  obtain ⟨-, hafter, hbefore⟩ := hn
  have h₁ : before.filter (·.id == x.id) = [] := List.filter_eq_nil_iff.2 fun y hy hi =>
    hbefore y.id (List.mem_map_of_mem hy) x.id List.mem_cons_self (beq_iff_eq.1 hi)
  have h₂ : after.filter (·.id == x.id) = [] := List.filter_eq_nil_iff.2 fun y hy hi =>
    (List.nodup_cons.1 hafter).1 (beq_iff_eq.1 hi ▸ List.mem_map_of_mem hy)
  rw [h, List.filter_append, h₁, List.filter_cons_of_pos (by simp), h₂, List.nil_append]

/-- A tree with a new branch has the numbers of both. -/
theorem ids_graft_perm {n : NodeId} {b t : Planted} (hn : t.ids.Nodup) (h : n ∈ t.ids) :
    (t.graft n b).ids.Perm (t.ids ++ b.ids) := by
  obtain ⟨x, hx, rfl⟩ := exists_site h []
  have hf := filter_id_eq hn hx
  have hp := (sites_graft x.id b [] t).map Site.id
  rw [List.map_nil, sites_map_id, hf, List.flatMap_singleton, List.map_append, List.map_map,
    sites_map_id] at hp
  refine hp.trans (List.Perm.append_right _ ?_)
  rw [← sites_map_id [] t]
  exact List.Perm.of_eq (List.map_congr_left fun y _ => y.id_graft x.id b)

/-- A branch added to a node that is not there is lost. -/
theorem graft_of_not_mem {n : NodeId} {b : Planted} :
    ∀ {t : Planted}, n ∉ t.ids → t.graft n b = t := by
  intro t
  induction t with
  | node l cs ih =>
    intro h
    rw [ids, List.mem_cons, idsAll_eq, List.mem_flatMap] at h
    push Not at h
    rw [graft, Label.grow_of_ne h.1.symm, if_neg h.1.symm, List.append_nil, graftAll_eq]
    congr 1
    exact (List.map_congr_left fun c hc => ih c hc (h.2 c hc)).trans (List.map_id _)

theorem graftAll_of_not_mem {n : NodeId} {b : Planted} {ts : List Planted} (h : n ∉ idsAll ts) :
    graftAll n ts b = ts := by
  rw [graftAll_eq]
  refine (List.map_congr_left fun c hc => graft_of_not_mem fun hm => h ?_).trans (List.map_id _)
  rw [idsAll_eq]
  exact List.mem_flatMap.2 ⟨c, hc, hm⟩

/-- **The sites of a tree with nodes replaced by their children**: those that
are kept, below what is kept above them. -/
theorem sitesAll_dissolveAll (gone : NodeId → Bool) :
    ∀ (above : List Label) (ts : List Planted),
      sitesAll (above.filter (!gone ·.id)) (dissolveAll gone ts)
        = ((sitesAll above ts).filter (!gone ·.id)).map (Site.dissolve gone)
  | _, [] => by rw [dissolveAll, sitesAll, sitesAll]; rfl
  | above, .node l cs :: ts => by
    have h₁ := sitesAll_dissolveAll gone (l :: above) cs
    have h₂ := sitesAll_dissolveAll gone above ts
    rw [dissolveAll_node, sitesAll, sites, List.cons_append, ← List.cons_append]
    by_cases hl : gone l.id = true
    · rw [List.filter_cons_of_neg (by simpa using hl)] at h₁
      rw [if_pos hl, sitesAll_concat, h₁, h₂, List.filter_append,
        List.filter_cons_of_neg (by simpa using hl), List.map_append]
    · rw [List.filter_cons_of_pos (by simpa using hl)] at h₁
      rw [if_neg hl, sitesAll, sites, h₁, h₂, List.filter_append,
        List.filter_cons_of_pos (by simpa using hl), List.map_append, List.map_cons]
      rfl

theorem sites_dissolve (gone : NodeId → Bool) {t : Planted} (ht : gone t.id = false) :
    (t.dissolve gone).sites [] = ((t.sites []).filter (!gone ·.id)).map (Site.dissolve gone) := by
  have h := sitesAll_dissolveAll gone [] [t]
  obtain ⟨l, cs⟩ := t
  rw [dissolveAll_node, if_neg (by simpa using ht), dissolveAll, List.filter_nil,
    sitesAll_singleton, sitesAll_singleton] at h
  exact h

theorem inner_dissolve (gone : NodeId → Bool) {t : Planted} (ht : gone t.id = false) :
    (t.dissolve gone).inner = (t.inner.filter (!gone ·.id)).map (Site.dissolve gone) := by
  have h := sitesAll_dissolveAll gone [t.label] t.children
  rw [List.filter_cons_of_pos (by simpa using ht), List.filter_nil] at h
  rw [inner, children_dissolve, label_dissolve, h, inner]

theorem inner_prune (cut : NodeId → Bool) {t : Planted} (ht : cut t.id = false) :
    (t.prune cut).inner = (t.inner.filter (Site.spared cut)).map (Site.prune cut) := by
  rw [inner, children_prune, label_prune, sitesAll_pruneAll cut (by simpa using ht), inner]

/-- Cutting is the same where only branches that are cut off anyway differ. -/
theorem pruneAll_congr {p q : NodeId → Bool} :
    ∀ {above : List Label} {ts : List Planted}, (∀ l ∈ above, q l.id = false) →
      (∀ x ∈ sitesAll above ts, (∀ l ∈ x.above, q l.id = false) → p x.id = q x.id) →
      pruneAll p ts = pruneAll q ts
  | _, [], _, _ => by rw [pruneAll, pruneAll]
  | above, .node l cs :: ts, ha, h => by
    have hl : p l.id = q l.id :=
      h ⟨above, .node l cs⟩ (List.mem_append_left _ (self_mem_sites _ _)) ha
    rw [pruneAll, pruneAll, prune, prune, id_node, hl,
      pruneAll_congr ha fun x hx => h x (List.mem_append_right _ hx)]
    split_ifs with hq
    · rfl
    · have hq : q l.id = false := Bool.eq_false_iff.2 hq
      rw [pruneAll_congr (List.forall_mem_cons.2 ⟨hq, ha⟩)
        fun x hx => h x (List.mem_append_left _ (List.mem_cons_of_mem _ hx))]

theorem prune_congr {p q : NodeId → Bool} {t : Planted} (ht : q t.id = false)
    (h : ∀ x ∈ t.inner, (∀ l ∈ x.above, q l.id = false) → p x.id = q x.id) :
    t.prune p = t.prune q := by
  obtain ⟨l, cs⟩ := t
  have ha : ∀ m ∈ [l], q m.id = false := by simpa using ht
  exact congrArg (node l) (pruneAll_congr ha h)

mutual

/-- **Cutting where no branch is to be cut** changes nothing. -/
theorem prune_of_kept {cut : NodeId → Bool} :
    ∀ {t : Planted}, (∀ n ∈ idsAll t.children, cut n = false) → t.prune cut = t
  | .node l cs, h => by
    have hc : pruneAll cut cs = cs := pruneAll_of_kept h
    rw [prune, hc]

theorem pruneAll_of_kept {cut : NodeId → Bool} :
    ∀ {ts : List Planted}, (∀ n ∈ idsAll ts, cut n = false) → pruneAll cut ts = ts
  | [], _ => rfl
  | t :: ts, h => by
    rw [idsAll, List.forall_mem_append, ids_eq, List.forall_mem_cons] at h
    rw [pruneAll, if_neg (by simp [h.1.1]), prune_of_kept h.1.2, pruneAll_of_kept h.2]

end

mutual

theorem prune_prune (p q : NodeId → Bool) :
    ∀ t : Planted, (t.prune p).prune q = t.prune fun n => p n || q n
  | .node l cs => by rw [prune, prune, prune, pruneAll_pruneAll]

/-- **Branches may be cut off one after the other or all at once.** -/
theorem pruneAll_pruneAll (p q : NodeId → Bool) :
    ∀ ts : List Planted, pruneAll q (pruneAll p ts) = pruneAll (fun n => p n || q n) ts
  | [] => by simp only [pruneAll]
  | t :: ts => by
    have h₁ := prune_prune p q t
    have h₂ := pruneAll_pruneAll p q ts
    rw [pruneAll, pruneAll]
    by_cases hp : p t.id = true
    · rw [if_pos hp, if_pos (by simp [hp]), h₂]
    · rw [if_neg hp, pruneAll, id_prune, h₁, h₂]
      simp [hp]

end

mutual

/-- What is grafted onto a branch goes when the branch is cut off. -/
theorem prune_graft (n : NodeId) (u : Planted) :
    ∀ {t : Planted}, t.id ≠ n → (t.graft n u).prune (· == n) = t.prune (· == n)
  | .node l cs, h => by
    have hl : l.id ≠ n := h
    rw [graft, Label.grow_of_ne hl, if_neg hl, List.append_nil, prune, prune, pruneAll_graftAll]

theorem pruneAll_graftAll (n : NodeId) (u : Planted) :
    ∀ ts : List Planted, pruneAll (· == n) (graftAll n ts u) = pruneAll (· == n) ts
  | [] => by rw [graftAll]
  | t :: ts => by
    rw [graftAll, pruneAll, pruneAll, id_graft, pruneAll_graftAll n u ts]
    by_cases h : t.id = n
    · rw [if_pos (by simpa using h), if_pos (by simpa using h)]
    · rw [if_neg (by simpa using h), if_neg (by simpa using h), prune_graft n u h]

end

theorem dissolveAll_of_kept (gone : NodeId → Bool) :
    ∀ {ts : List Planted}, (∀ n ∈ idsAll ts, gone n = false) → dissolveAll gone ts = ts
  | [], _ => by rw [dissolveAll]
  | .node l cs :: ts, h => by
    rw [idsAll, ids] at h
    rw [dissolveAll_node, if_neg (by simp [h l.id (by simp)]),
      dissolveAll_of_kept gone fun n hn => h n ?_, dissolveAll_of_kept gone fun n hn => h n ?_]
    · exact List.mem_append_right _ hn
    · exact List.mem_append_left _ (List.mem_cons_of_mem _ hn)

/-- **The numbers of a tree with nodes replaced by their children** are the ones kept. -/
theorem ids_dissolve (gone : NodeId → Bool) {t : Planted} (ht : gone t.id = false) :
    (t.dissolve gone).ids = t.ids.filter (!gone ·) := by
  rw [← sites_map_id [], ← sites_map_id [] t, sites_dissolve gone ht, List.map_map,
    show Site.id ∘ Site.dissolve gone = Site.id from funext fun x => x.id_dissolve gone,
    List.filter_map]
  rfl

theorem ids_dissolve_sublist (gone : NodeId → Bool) {t : Planted} (ht : gone t.id = false) :
    (t.dissolve gone).ids.Sublist t.ids :=
  ids_dissolve gone ht ▸ List.filter_sublist

/-- The number of the node right above a site. -/
theorem head_above_ne {t : Planted} (hn : t.ids.Nodup) {x y q : Site} (hx : x ∈ t.sites [])
    (hq : q ∈ t.sites []) (hy : y.here ∈ q.here.children)
    (hm : y.id ∉ x.here.children.map id) : q.id ≠ x.id := by
  intro he
  rw [eq_of_id_eq hn hq hx he] at hy
  exact hm (List.mem_map_of_mem hy)

/-- When one node is dissolved, its children get its parent. -/
theorem parent_dissolve {t : Planted} (hn : t.ids.Nodup) {p x y : Site} (hp : p ∈ t.sites [])
    (hx : x ∈ t.sites []) (ha : x.above = p.here.label :: p.above) (hy : y ∈ t.sites []) :
    (y.dissolve (· == x.id)).entry.parent
      = if y.id ∈ x.here.children.map id then some p.id else y.entry.parent := by
  rw [Site.entry, Site.dissolve, Site.entry]
  split_ifs with hm
  · have hpx : p.here.label.id ≠ x.id := fun he =>
      parent_not_mem_ids hn hp hx ha (show p.here.label.id ∈ _ from he ▸ x.here.self_mem_ids)
    rw [above_eq_of_child hn hx hy hm, ha, List.filter_cons_of_neg (by simp),
      List.filter_cons_of_pos (by simpa using hpx)]
    rfl
  · rcases exists_parent hy with rfl | ⟨q, hq, hb, hcq⟩
    · rfl
    · have hqx : q.id ≠ x.id := head_above_ne hn hx hq hcq hm
      rw [hb, List.filter_cons_of_pos (by simpa using hqx)]
      rfl

/-- When one node is dissolved, its children get its place. -/
theorem children_dissolve_one {t : Planted} (hn : t.ids.Nodup) {p x y : Site} (hp : p ∈ t.sites [])
    (hx : x ∈ t.sites []) (ha : x.above = p.here.label :: p.above) {before after : List Planted}
    (hc : p.here.children = before ++ x.here :: after) (hy : y ∈ t.sites []) :
    (y.dissolve (· == x.id)).entry.children = if p.id = y.id
      then before.map id ++ x.here.children.map id ++ after.map id else y.entry.children := by
  have hkept : ∀ {ts : List Planted}, x.id ∉ ts.map id → ∀ t ∈ ts, (t.id == x.id) = false :=
    fun h t ht => beq_eq_false_iff_ne.2 fun he => h (he ▸ List.mem_map_of_mem ht)
  rw [Site.entry, Site.dissolve, children_dissolve, Site.entry]
  split_ifs with hpy
  · have hxn := hn.sublist (ids_sublist hx)
    have hpn := children_nodup hn hp
    rw [hc, List.map_append, List.map_cons] at hpn
    rw [ids_eq] at hxn
    have h₁ : x.id ∉ before.map id := fun h =>
      (List.nodup_append'.1 hpn).2.2 h List.mem_cons_self
    have h₂ : x.id ∉ x.here.children.map id := fun h =>
      (List.nodup_cons.1 hxn).1 ((map_id_sublist _).mem h)
    have h₃ : x.id ∉ after.map id := (List.nodup_cons.1 (List.nodup_append'.1 hpn).2.1).1
    rw [← eq_of_id_eq hn hp hy hpy, hc, dissolveAll_append,
      dissolveAll_cons_of_gone (by simp), List.map_append, List.map_append,
      map_id_dissolveAll (hkept h₁), map_id_dissolveAll (hkept h₂), map_id_dissolveAll (hkept h₃),
      List.append_assoc]
  · refine map_id_dissolveAll (hkept fun hm => hpy ?_)
    have h := above_eq_of_child hn hy hx hm
    rw [ha, List.cons.injEq] at h
    exact congrArg Label.id h.1

/-- **Nodes may be dissolved one after the other or all at once.** -/
theorem dissolveAll_dissolveAll (g g' : NodeId → Bool) :
    ∀ ts : List Planted,
      dissolveAll g' (dissolveAll g ts) = dissolveAll (fun n => g n || g' n) ts
  | [] => by simp only [dissolveAll]
  | .node l cs :: ts => by
    have h₁ := dissolveAll_dissolveAll g g' cs
    have h₂ := dissolveAll_dissolveAll g g' ts
    rw [dissolveAll_node, dissolveAll_node]
    by_cases hg : g l.id = true
    · rw [if_pos hg, if_pos (by simp [hg]), dissolveAll_append, h₁, h₂]
    · rw [if_neg hg, dissolveAll_node, h₁, h₂]
      simp [hg]

theorem dissolve_dissolve (g g' : NodeId → Bool) (t : Planted) :
    (t.dissolve g).dissolve g' = t.dissolve fun n => g n || g' n := by
  obtain ⟨l, cs⟩ := t
  rw [dissolve, dissolve, dissolve, dissolveAll_dissolveAll]

end Planted
end MediaGrouping
