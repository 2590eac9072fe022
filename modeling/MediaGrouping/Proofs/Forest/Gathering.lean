/-
# Moving several nodes at once

Appending trees one after the other grafts them in their order
(`Stands.appendAll`); at the top of a tree this extends its list of children
(`Planted.foldl_graft_top`). The children of a node that are all taken out stand
on their own (`Stands.detachChildren`), and a node whose children are moved into
a new node inside it has that node as its only child (`Stands.enclose`).
-/

import MediaGrouping.Proofs.Forest.Unwrapping
import MediaGrouping.Scope.Resolve

namespace MediaGrouping

theorem Label.grow_grow (n : NodeId) (l : Label) : (l.grow n).grow n = l.grow n := by
  unfold Label.grow
  split_ifs with h
  · rw [Content.withBlock_withBlock]
  · rfl

/-- Whether a number is that of a child of a site's node. -/
def Site.isChild (x : Site) : NodeId → Bool := (x.here.children.map Planted.id).contains

namespace Planted

/-- The tree with more branches below its top, which then has a block. -/
def extend (t : Planted) (us : List Planted) : Planted :=
  if us.isEmpty then t else .node (t.label.grow t.id) (t.children ++ us)

@[simp] theorem extend_nil (t : Planted) : t.extend [] = t := rfl

theorem extend_cons (t u : Planted) (us : List Planted) :
    t.extend (u :: us) = .node (t.label.grow t.id) (t.children ++ u :: us) := rfl

@[simp] theorem id_extend (t : Planted) (us : List Planted) : (t.extend us).id = t.id := by
  unfold extend; split_ifs
  · rfl
  · exact Label.id_grow _ _

@[simp] theorem children_extend (t : Planted) (us : List Planted) :
    (t.extend us).children = t.children ++ us := by
  unfold extend; split_ifs with h
  · rw [List.isEmpty_iff.1 h, List.append_nil]
  · rfl

theorem extend_extend (t u : Planted) (us : List Planted) :
    (t.extend [u]).extend us = t.extend (u :: us) := by
  cases us with
  | nil => rfl
  | cons v us =>
    rw [extend_cons, extend_cons, extend_cons, id_node, label_node, children_node, Label.id_grow,
      id_label, Label.grow_grow, List.append_assoc, List.singleton_append]

theorem not_mem_children_extend {t u : Planted} (ht : t.id ∉ idsAll t.children)
    (hu : t.id ∉ u.ids) : (t.extend [u]).id ∉ idsAll (t.extend [u]).children := by
  rw [id_extend, children_extend, idsAll_eq, List.flatMap_append, List.mem_append, ← idsAll_eq,
    List.flatMap_singleton, not_or]
  exact ⟨ht, hu⟩

theorem graft_self {t : Planted} (u : Planted) (h : t.id ∉ idsAll t.children) :
    t.graft t.id u = t.extend [u] := by
  obtain ⟨l, cs⟩ := t
  have hc : graftAll l.id cs u = cs := graftAll_of_not_mem h
  rw [graft, id_node, if_pos rfl, hc, extend_cons]
  rfl

/-- **Branches that are added to the top one after the other** extend the tree. -/
theorem foldl_graft_top (us : List Planted) :
    ∀ {t : Planted}, t.id ∉ idsAll t.children → (∀ u ∈ us, t.id ∉ u.ids) →
      us.foldl (fun s u => graft t.id s u) t = t.extend us := by
  induction us with
  | nil => intro t _ _; rfl
  | cons u us ih =>
    intro t ht hu
    have h := ih (not_mem_children_extend ht (hu u List.mem_cons_self)) fun v hv => by
      rw [id_extend]
      exact hu v (List.mem_cons_of_mem _ hv)
    rw [id_extend, extend_extend] at h
    rw [List.foldl_cons, graft_self u ht, h]

/-- **Branches that are added to a child of the top** extend the child. -/
theorem foldl_graft_child {l : Label} {before after : List Planted} (us : List Planted) :
    ∀ {w : Planted}, l.id ≠ w.id → w.id ∉ idsAll before → w.id ∉ idsAll after →
      w.id ∉ idsAll w.children → (∀ u ∈ us, w.id ∉ u.ids) →
      us.foldl (fun s u => graft w.id s u) (node l (before ++ w :: after))
        = node l (before ++ w.extend us :: after) := by
  induction us with
  | nil => intro w _ _ _ _ _; rfl
  | cons u us ih =>
    intro w hl hb ha hw hu
    have hg : graft w.id (node l (before ++ w :: after)) u
        = node l (before ++ w.extend [u] :: after) := by
      rw [graft, Label.grow_of_ne hl, if_neg hl, List.append_nil, graftAll_eq, List.map_append,
        List.map_cons, ← graftAll_eq, ← graftAll_eq, graftAll_of_not_mem hb,
        graftAll_of_not_mem ha, graft_self u hw]
    have h := ih (w := w.extend [u]) (by rwa [id_extend]) (by rwa [id_extend]) (by rwa [id_extend])
      (not_mem_children_extend hw (hu u List.mem_cons_self)) fun v hv => by
        rw [id_extend]
        exact hu v (List.mem_cons_of_mem _ hv)
    rw [id_extend, extend_extend] at h
    rw [List.foldl_cons, hg, h]

/-- The tree with its branches below a new node with the number `n`. -/
def enclosed (n : NodeId) (rule : AtRule) (t : Planted) : Planted :=
  node (t.label.grow t.id) [node ⟨n, .atRule { rule with hasBlock := true }, none⟩ t.children]

theorem extend_of_block {l : Label} {us : List Planted} (h : l.content.withBlock = l.content) :
    (node l []).extend us = node l us := by
  cases us with
  | nil => rfl
  | cons u us =>
    rw [extend_cons, label_node, id_node, Label.grow, if_pos rfl, h]
    rfl

variable {t : Planted} {x y : Site}

theorem above_of_isChild (hn : t.ids.Nodup) (hx : x ∈ t.sites []) (hy : y ∈ t.sites [])
    (h : x.isChild y.id = true) : y.above = x.here.label :: x.above :=
  above_eq_of_child hn hx hy (List.contains_iff_mem.1 h)

/-- Nothing above a node is a child of it, and neither is the node. -/
theorem isChild_above (hn : t.ids.Nodup) (hx : x ∈ t.sites []) :
    x.isChild x.id = false ∧ ∀ l ∈ x.above, x.isChild l.id = false := by
  constructor
  · rw [Bool.eq_false_iff]
    intro h
    have := congrArg List.length (above_of_isChild hn hx hx h)
    simp at this
  · intro l hl
    rw [Bool.eq_false_iff]
    intro h
    obtain ⟨p, hp, rfl, hpx⟩ := (exists_site_above hx hl).resolve_left List.not_mem_nil
    have hlt := length_lt_of_below hpx
    rw [above_of_isChild hn hx hp h, List.length_cons] at hlt
    omega

/-- The top is no child. -/
theorem isChild_top (hn : t.ids.Nodup) (hx : x ∈ t.sites []) : x.isChild t.id = false := by
  rw [Bool.eq_false_iff]
  intro h
  have := above_of_isChild hn hx (t.self_mem_sites []) h
  cases this

/-- The site of a node that has lost its children. -/
theorem mem_sites_prune_isChild (hn : t.ids.Nodup) (hx : x ∈ t.sites []) :
    ⟨x.above, .node x.here.label []⟩ ∈ (t.prune x.isChild).sites [] := by
  obtain ⟨hself, habove⟩ := isChild_above hn hx
  refine (mem_sites_prune x.isChild (isChild_top hn hx)).2 ⟨x, hx, hself, habove, ?_⟩
  have hc : pruneAll x.isChild x.here.children = [] := by
    rw [pruneAll_eq, List.map_eq_nil_iff, List.filter_eq_nil_iff]
    intro c hc
    have : x.isChild c.id = true := List.contains_iff_mem.2 (List.mem_map_of_mem hc)
    simp [this]
  obtain ⟨above, l, cs⟩ := x
  rw [Site.prune, prune]
  exact congrArg (fun ts => Site.mk above (node l ts)) hc.symm

/-- Taking the children of a node out takes them from it and from no other node. -/
theorem children_filter_isChild (hn : t.ids.Nodup) (hx : x ∈ t.sites []) (hy : y ∈ t.sites []) :
    y.entry.children.filter (!x.isChild ·) = if x.id = y.id then [] else y.entry.children := by
  split_ifs with hxy
  · rw [← eq_of_id_eq hn hx hy hxy, List.filter_eq_nil_iff]
    intro n hm
    rw [Bool.not_eq_true', Bool.not_eq_false]
    exact List.contains_iff_mem.2 hm
  · rw [List.filter_eq_self]
    intro n hm
    rw [Bool.not_eq_true', Bool.eq_false_iff]
    intro hc
    obtain ⟨d, hd, rfl⟩ := List.mem_map.1 hm
    have := above_of_isChild hn hx (child_mem_sites hy hd) hc
    rw [List.cons.injEq] at this
    exact hxy (congrArg Label.id this.1).symm

/-- In the branch of a child of a node, only its top is a child of the node. -/
theorem isChild_iff_of_mem_ids (hn : t.ids.Nodup) (hx : x ∈ t.sites []) {c : Planted}
    (hc : c ∈ x.here.children) {m : NodeId} (hm : m ∈ c.ids) :
    m ∈ x.here.children.map id ↔ c.id = m := by
  refine ⟨fun hmem => ?_, fun he => he ▸ List.mem_map_of_mem hc⟩
  have hs := child_mem_sites hx hc
  obtain ⟨y, hy, rfl⟩ := exists_site hm (x.here.label :: x.above)
  have ha := above_eq_of_child hn hx (sites_trans hs hy) hmem
  rw [sites_eq, List.mem_cons] at hy
  rcases hy with rfl | hy
  · rfl
  · have hlt := length_lt_of_below hy
    rw [ha] at hlt
    exact absurd hlt (Nat.lt_irrefl _)

/-- Enclosing the children of a node changes its branch only. -/
theorem prune_enclosing (hn : t.ids.Nodup) (hx : x ∈ t.sites []) (hne : t.id ≠ x.id)
    (u : Planted) :
    ((t.prune x.isChild).graft x.id u).prune (· == x.id) = t.prune (· == x.id) := by
  rw [prune_graft x.id u (by rwa [id_prune]), prune_prune]
  refine prune_congr (by simpa using hne) fun y hy ha => ?_
  have : x.isChild y.id = false := by
    rw [Bool.eq_false_iff]
    intro h
    have hl := above_of_isChild hn hx (mem_sites_of_mem_inner hy) h
    simpa using ha x.here.label (hl ▸ List.mem_cons_self)
  rw [this, Bool.false_or]

/-- The site of a node whose children have been moved into a new node. -/
theorem mem_inner_enclosing (hn : t.ids.Nodup) (hx : x ∈ t.inner) (n : NodeId) (rule : AtRule) :
    ⟨x.above, x.here.enclosed n rule⟩ ∈ ((t.prune x.isChild).graft x.id
      (.node ⟨n, .atRule { rule with hasBlock := true }, none⟩ x.here.children)).inner := by
  obtain ⟨hxs, ha⟩ := mem_inner_iff.1 hx
  refine mem_inner_iff.2 ⟨mem_sites_graft.2 (Or.inl ⟨_, mem_sites_prune_isChild hn hxs, ?_⟩), ha⟩
  have hmap : x.above.map (Label.grow x.id) = x.above := by
    refine (List.map_congr_left fun l hl => Label.grow_of_ne fun he => ?_).trans (List.map_id _)
    obtain ⟨p, hp, rfl, hpx⟩ := (exists_site_above hxs hl).resolve_left List.not_mem_nil
    rw [eq_of_id_eq hn hp hxs he] at hpx
    exact (length_lt_of_below hpx).false
  have hid : x.here.label.id = x.id := rfl
  rw [Site.graft, hmap, graft, graftAll, if_pos hid, List.nil_append, enclosed]
  rfl

end Planted

namespace Forest

variable {f : Forest} {t : Planted} {x : Site} {p : NodeId}

namespace Stands

/-- **A tree that is appended to the top of another** is the last of its branches. -/
theorem append_top {u : Planted} (h : f.Stands t) (hu : f.Stands u) (hne : t.id ≠ u.id) :
    (f.append t.id u.id).Stands (t.extend [u]) ∧ Spares f (f.append t.id u.id) [t.id, u.id] := by
  have happend := h.append hu hne t.self_mem_ids
  rwa [Planted.graft_self u (Planted.id_not_mem h.nodup)] at happend

/-- **Trees that are appended to a node** are grafted onto it in their order. -/
theorem appendAll (us : List Planted) :
    ∀ {f : Forest} {t : Planted}, f.Stands t → (∀ u ∈ us, f.Stands u) →
      (t.id :: us.map Planted.id).Nodup → p ∈ t.ids →
      (f.appendAll p (us.map Planted.id)).Stands (us.foldl (fun s u => Planted.graft p s u) t) ∧
        Spares f (f.appendAll p (us.map Planted.id)) (t.id :: us.map Planted.id) := by
  induction us with
  | nil => intro f t h _ _ _; exact ⟨h, Spares.refl f _⟩
  | cons u us ih =>
    intro f t h hu hn hp
    rw [List.map_cons, List.nodup_cons, List.nodup_cons, List.mem_cons, not_or] at hn
    obtain ⟨⟨hne, hnt⟩, hnu, hnd⟩ := hn
    obtain ⟨h₁, hs₁⟩ := h.append (hu u List.mem_cons_self) hne hp
    have hp₁ : p ∈ (t.graft p u).ids :=
      (Planted.ids_graft_perm h.nodup hp).mem_iff.2 (List.mem_append_left _ hp)
    have hu₁ : ∀ v ∈ us, (f.append p u.id).Stands v := fun v hv => by
      have hm : v.id ∈ us.map Planted.id := List.mem_map_of_mem hv
      refine hs₁.stands v (hu v (List.mem_cons_of_mem _ hv)) ?_
      simp only [List.mem_cons, List.not_mem_nil, or_false, not_or]
      exact ⟨fun he => hnt (he ▸ hm), fun he => hnu (he ▸ hm)⟩
    obtain ⟨h₂, hs₂⟩ := ih h₁ hu₁
      (by rw [Planted.id_graft]; exact List.nodup_cons.2 ⟨hnt, hnd⟩) hp₁
    rw [Planted.id_graft] at hs₂
    refine ⟨h₂, (hs₁.mono ?_).trans (hs₂.mono ?_)⟩
    · exact List.cons_subset_cons _ (List.cons_subset_cons _ (List.nil_subset _))
    · exact List.cons_subset_cons _ (List.subset_cons_self _ _)

/-- **The children of a node that are all taken out** stand on their own. -/
theorem detachChildren (h : f.Stands t) (hx : x ∈ t.sites []) :
    (f.detachChildren x.id).2.Stands (t.prune (x.here.children.map Planted.id).contains) ∧
      (∀ c ∈ x.here.children, (f.detachChildren x.id).2.Stands c) ∧
      Spares f (f.detachChildren x.id).2 [t.id] := by
  have hget := get?_detachChildren f x.id
  rw [h.children hx] at hget
  have htop := Planted.isChild_top h.nodup hx
  refine ⟨⟨fun y' hy' => ?_, h.nodup.sublist (Planted.ids_prune_sublist _ htop)⟩,
    fun c hc => ?_, ?_⟩
  · obtain ⟨y, hy, hne, -, rfl⟩ := (Planted.mem_sites_prune _ htop).1 hy'
    have hne : y.id ∉ x.here.children.map Planted.id := fun hm =>
      Bool.false_ne_true (hne.symm.trans (List.contains_iff_mem.2 hm))
    rw [Site.id_prune, hget, h.get? y hy, Option.map_some, if_neg hne,
      ← Planted.children_filter_isChild h.nodup hx hy, Site.entry_prune]
  · have hs := Planted.child_mem_sites hx hc
    refine h.branch hs fun m hm => ?_
    have hxm : x.id ≠ m := fun he =>
      Planted.parent_not_mem_ids h.nodup hx hs rfl (he ▸ hm)
    simp only [hget, if_neg hxm, Planted.isChild_iff_of_mem_ids h.nodup hx hc hm]
    rfl
  · refine Spares.of_get? [t] (size_detachChildren f x.id).ge (by simpa using h)
      fun m _ hm => ?_
    have hm := hm t List.mem_cons_self
    have hxm : x.id ≠ m := fun he => hm (he ▸ Planted.id_mem_ids hx)
    have hmc : m ∉ x.here.children.map Planted.id := fun hmem => by
      obtain ⟨c, hc, rfl⟩ := List.mem_map.1 hmem
      exact hm (Planted.id_mem_ids (Planted.child_mem_sites hx hc))
    simp only [hget, if_neg hxm, if_neg hmc]
    cases f.get? m <;> rfl

/-- **Children that are moved to the top of another tree** are then its only branches,
and are missing below their node. -/
theorem moveChildren (h : f.Stands t) (hx : x ∈ t.sites []) {b : Label}
    (hb : f.Stands (.node b [])) (hbt : b.id ∉ t.ids) (hbb : b.content.withBlock = b.content) :
    let f' := (f.detachChildren x.id).2.appendAll b.id (x.here.children.map Planted.id)
    f'.Stands (t.prune x.isChild) ∧ f'.Stands (.node b x.here.children) ∧
      Spares f f' (b.id :: t.id :: x.here.children.map Planted.id) := by
  intro f'
  have hne : b.id ≠ t.id := fun he => hbt (he ▸ t.self_mem_ids)
  have hct : t.id ∉ x.here.children.map Planted.id := fun hm => by
    cases Planted.above_eq_of_child h.nodup hx (t.self_mem_sites []) hm
  have hcb : ∀ c ∈ x.here.children, b.id ∉ c.ids := fun c hc hm =>
    hbt ((Planted.ids_sublist (Planted.child_mem_sites hx hc)).mem hm)
  have hbc : b.id ∉ x.here.children.map Planted.id := fun hm => by
    obtain ⟨c, hc, he⟩ := List.mem_map.1 hm
    exact hcb c hc (he ▸ c.self_mem_ids)
  obtain ⟨ht₁, hc₁, hs₁⟩ := h.detachChildren hx
  have hb₁ := hs₁.stands _ hb (by simpa using hne)
  obtain ⟨hb₂, hs₂⟩ := hb₁.appendAll x.here.children hc₁ (p := b.id)
    (List.nodup_cons.2 ⟨hbc, Planted.children_nodup h.nodup hx⟩)
    (Planted.self_mem_ids (.node b []))
  rw [Planted.id_node] at hs₂
  have hu : x.here.children.foldl (fun s u => Planted.graft b.id s u) (.node b [])
      = .node b x.here.children :=
    (Planted.foldl_graft_top _ (t := .node b []) List.not_mem_nil hcb).trans
      (Planted.extend_of_block hbb)
  rw [hu] at hb₂
  have ht₂ := hs₂.stands (t.prune x.isChild) ht₁ (by
    rw [Planted.id_prune, List.mem_cons, not_or]
    exact ⟨hne.symm, hct⟩)
  exact ⟨ht₂, hb₂, (hs₁.mono (by simp)).trans (hs₂.mono (by simp))⟩

/-- **A node whose children are moved into a new node inside it** has that node
as its only child. -/
theorem enclose (h : f.Stands t) (hx : x ∈ t.inner) (rule : AtRule) :
    ∃ t', (Resolver.enclose f x.id rule).Stands t' ∧ t'.id = t.id ∧
      ⟨x.above, x.here.enclosed f.size rule⟩ ∈ t'.inner ∧
      t'.prune (· == x.id) = t.prune (· == x.id) ∧
      Spares f (Resolver.enclose f x.id rule) [t.id] := by
  have hxs := Planted.mem_sites_of_mem_inner hx
  -- the new node is made
  set b : Label := ⟨f.size, .atRule { rule with hasBlock := true }, none⟩ with hb
  have hs₁ : Spares f (f.create b.content).2 [] := create_eq_plant f b.content ▸ spares_plant f _
  have hb₁ : (f.create b.content).2.Stands (.node b []) := by
    rw [create_eq_plant]
    exact stands_plant f (.node b.content none [])
  have hbt : b.id ∉ t.ids := fun hm => (h.lt_size hm).ne rfl
  -- the children are moved into it
  have ht₁ := hs₁.stands t h List.not_mem_nil
  obtain ⟨ht₂, hb₂, hs₂⟩ := ht₁.moveChildren hxs hb₁ hbt rfl
  have hfst : ((f.create b.content).2.detachChildren x.id).1 = x.here.children.map Planted.id :=
    ht₁.children hxs
  -- and it is moved into the old node
  have hxp : x.id ∈ (t.prune x.isChild).ids :=
    Planted.id_mem_ids (x := ⟨x.above, .node x.here.label []⟩)
      (Planted.mem_sites_prune_isChild h.nodup hxs)
  have htb : (t.prune x.isChild).id ≠ b.id := by
    rw [Planted.id_prune]
    exact fun he => hbt (he ▸ t.self_mem_ids)
  obtain ⟨ht₃, hs₃⟩ := ht₂.append hb₂ htb hxp
  rw [Planted.id_prune] at hs₃
  have he : Resolver.enclose f x.id rule
      = ((((f.create b.content).2.detachChildren x.id).2.appendAll b.id
          (x.here.children.map Planted.id)).append x.id b.id) := by
    rw [← hfst]
    rfl
  rw [he]
  refine ⟨_, ht₃, by rw [Planted.id_graft, Planted.id_prune],
    Planted.mem_inner_enclosing h.nodup hx f.size rule,
    Planted.prune_enclosing h.nodup hxs (Planted.top_ne_inner h.nodup hx) _, ?_⟩
  have hs : Spares f _ (b.id :: t.id :: x.here.children.map Planted.id) :=
    (hs₁.mono (List.nil_subset _)).trans (hs₂.trans (hs₃.mono (by simp)))
  refine hs.restrict fun u hu hm => ?_
  rcases List.mem_cons.1 hm with hm | hm
  · exact absurd hm (hu.lt_size u.self_mem_ids).ne
  · rcases List.mem_cons.1 hm with hm | hm
    · exact hm ▸ List.mem_cons_self
    · obtain ⟨c, hc, hcu⟩ := List.mem_map.1 hm
      have hct : c.id ∈ t.ids := Planted.id_mem_ids (Planted.child_mem_sites hxs hc)
      exact (h.id_eq hu hct (hcu ▸ u.self_mem_ids)) ▸ List.mem_cons_self

end Stands
end Forest
end MediaGrouping
