/-
# Planted sheets

A sheet has a root at its top and nowhere else. Every block of a sheet is below
its root, so that a block with an anchor is at most two levels below the anchor,
which is the root or a child of it (`IsSheet.anchor_cases`). What leaves a sheet
and what stays can then be told scope by scope.
-/

import MediaGrouping.Proofs.Grouping.Leaving

namespace MediaGrouping

open Grouping (mediaName blocks rest trimmed)

namespace Site

variable {o : Options} {x y : Site}

theorem leaves_iff : x.leaves o = true ↔ x.isMedia = true ∧
    ∃ a, Scope.anchor? o mediaName x.above = some a ∧
      a.content.isAtRuleNamed mediaName = false := by
  rw [leaves, Bool.and_eq_true, Option.any_eq_true]
  simp only [Bool.not_eq_true']

theorem leaves_of_homed {n : NodeId} (h : x.homed o n = true) : x.leaves o = true := by
  obtain ⟨hm, a, ha, -, hfree⟩ := Planted.homed_iff.1 h
  exact leaves_iff.2 ⟨hm, a, ha, hfree⟩

theorem exists_homed (h : x.leaves o = true) : ∃ n, x.homed o n = true := by
  obtain ⟨hm, a, ha, hfree⟩ := leaves_iff.1 h
  exact ⟨a.id, Planted.homed_iff.2 ⟨hm, a, ha, rfl, hfree⟩⟩

/-- **No block stands above a block that leaves.** -/
theorem above_of_leaves (h : x.leaves o = true) :
    ∀ l ∈ x.above, l.content.isAtRuleNamed mediaName = false := by
  obtain ⟨-, a, ha, hfree⟩ := leaves_iff.1 h
  have hs : ∀ l ∈ Scope.scopes o mediaName x.above, l.content.isAtRuleNamed mediaName = false := by
    rcases Scope.anchorOf_eq_some.1 ha with ⟨he, -⟩ | ⟨b, he, -, hb⟩
    · rw [he]
      exact List.forall_mem_singleton.2 hfree
    · rw [he]
      refine List.forall_mem_cons.2 ⟨hfree, List.forall_mem_singleton.2 ?_⟩
      cases hc : b.content <;> rw [hc] at hb <;> first | rfl | cases hb
  intro l hl
  rcases Scope.scopes_eq_or o mediaName x.above with he | ⟨k, hk, he⟩
  · exact hs l (he ▸ hl)
  · rw [he, List.mem_cons] at hl
    rcases hl with rfl | hl
    · rw [Bool.eq_false_iff]
      intro hm
      rw [Scope.foreign_of_named hm] at hk
      cases hk
    · exact hs l hl

/-- Blocks that leave are not inside each other. -/
theorem label_not_mem_above (hx : x.leaves o = true) (hy : y.isMedia = true) :
    y.here.label ∉ x.above := fun hm => by
  have := above_of_leaves hx _ hm
  rw [show y.here.label.content.isAtRuleNamed mediaName = true from hy] at this
  cases this

end Site

namespace Planted

variable {o : Options} {t c : Planted} {x y : Site} {a : Label} {n : NodeId}

/-- **A sheet** has a root at its top only. -/
structure IsSheet (t : Planted) : Prop where
  root : t.content.isRoot = true
  rootless : ∀ x ∈ t.inner, x.here.content.isRoot = false

/-- The nodes that are the anchors of blocks: the root, and the wrappers right
below it that are no blocks. -/
def OnSheet (o : Options) (t : Planted) (n : NodeId) : Prop :=
  n = t.id ∨ ∃ c ∈ t.children, c.id = n ∧ o.wraps c.content = true ∧
    c.content.isAtRuleNamed mediaName = false

namespace IsSheet

/-- Above a site of a sheet stand the root and other nodes. -/
theorem exists_above (h : t.IsSheet) (hx : x ∈ t.inner) :
    ∃ path, x.above = path ++ [t.label] ∧ ∀ l ∈ path, l.content.isRoot = false := by
  obtain ⟨path, hp⟩ := above_of_mem_sitesAll hx
  refine ⟨path, hp, fun l hl => ?_⟩
  obtain ⟨before, after, rfl⟩ := List.append_of_mem hl
  rw [List.append_assoc, List.cons_append] at hp
  obtain ⟨p, hps, rfl, ha⟩ := exists_site_of_suffix (mem_sites_of_mem_inner hx) hp
  exact h.rootless p (mem_inner_iff.2 ⟨hps, by simp [ha]⟩)

theorem ends (h : t.IsSheet) (hx : x ∈ t.inner) : Scope.Ends mediaName x.above := by
  obtain ⟨path, hp, hr⟩ := h.exists_above hx
  exact ⟨path, t.label, hp, Or.inl h.root, hr⟩

/-- **The anchor of a block is the root, or a wrapper right below it.** -/
theorem anchor_cases (h : t.IsSheet) (hx : x ∈ t.inner)
    (ha : Scope.anchor? o mediaName x.above = some a) :
    (Scope.scopes o mediaName x.above = [t.label] ∧ a = t.label) ∨
      (Scope.scopes o mediaName x.above = [a, t.label] ∧ o.wraps a.content = true ∧
        ∃ c ∈ t.children, c.label = a) := by
  obtain ⟨path, hp, hr⟩ := h.exists_above hx
  have hlast : x.above.getLast? = some t.label := by
    rw [hp, List.getLast?_append, List.getLast?_singleton]; rfl
  obtain ⟨before, hb⟩ := Scope.exists_append_scopes o mediaName x.above
  rcases Scope.anchorOf_eq_some.1 ha with ⟨he, -⟩ | ⟨b, he, hw, -⟩
  · rw [hb, he, List.getLast?_append, List.getLast?_singleton] at hlast
    obtain rfl := Option.some.inj hlast
    exact Or.inl ⟨he, rfl⟩
  · rw [he] at hb
    rw [hb, List.getLast?_append] at hlast
    obtain rfl : b = t.label := Option.some.inj hlast
    obtain ⟨p, hps, rfl, hpa⟩ := exists_site_of_suffix (mem_sites_of_mem_inner hx) hb
    exact Or.inr ⟨he, hw, p.here, (child_of_above hps hpa).2, rfl⟩

/-- The only anchor that is a root is the top of the sheet. -/
theorem isRoot_anchor (h : t.IsSheet) (hn : t.ids.Nodup) (hx : x ∈ t.inner)
    (ha : Scope.anchor? o mediaName x.above = some a) : a.content.isRoot = true ↔ a.id = t.id := by
  rcases h.anchor_cases hx ha with ⟨-, rfl⟩ | ⟨-, -, c, hc, rfl⟩
  · exact iff_of_true h.root rfl
  · have hc := mem_inner_iff.2 ⟨child_mem_sites (t.self_mem_sites []) hc, List.cons_ne_nil _ _⟩
    refine iff_of_false (Bool.eq_false_iff.1 (h.rootless _ hc)) fun he => ?_
    exact top_ne_inner hn hc he.symm

/-- A block leaves for an anchor on the sheet. -/
theorem onSheet_of_leaves (h : t.IsSheet) (hx : x ∈ t.inner) (hl : x.leaves o = true)
    (ha : Scope.anchor? o mediaName x.above = some a) : OnSheet o t a.id := by
  obtain ⟨-, a', ha', hfree⟩ := Site.leaves_iff.1 hl
  obtain rfl := Option.some.inj (ha.symm.trans ha')
  rcases h.anchor_cases hx ha with ⟨-, rfl⟩ | ⟨-, hw, c, hc, rfl⟩
  · exact Or.inl rfl
  · exact Or.inr ⟨c, hc, rfl, hw, hfree⟩

/-- The root is the anchor of the blocks right below it. -/
theorem anchors_root (h : t.IsSheet) : Anchors o t.label [] where
  near := Scope.foreign_of_isRoot h.root
  anchor := by
    have : Scope.bounds o t.label.content = true := by
      rw [Scope.bounds, show t.label.content.isRoot = true from h.root, Bool.true_or]
    rw [Scope.anchorOf, if_pos this]
  free := by
    rw [Bool.eq_false_iff]
    intro hm
    exact absurd h.root (Bool.eq_false_iff.1 (Scope.isRoot_of_named hm))

/-- So is a wrapper right below the root that is no block. -/
theorem anchors_wrapper (h : t.IsSheet) (hw : o.wraps c.content = true)
    (hm : c.content.isAtRuleNamed mediaName = false) : Anchors o c.label [t.label] where
  near := by
    rw [Bool.eq_false_iff]
    intro hf
    exact Bool.false_ne_true ((Scope.wraps_of_foreign hf).symm.trans hw)
  anchor := by
    rw [Scope.anchorOf, if_pos]
    rw [Bool.and_eq_true]
    exact ⟨hw, h.root⟩
  free := hm

theorem mem_inner_of_child (hc : c ∈ t.children) (hx : x ∈ sitesAll [c.label, t.label] c.children) :
    x ∈ t.inner :=
  mem_sitesAll.2 ⟨c, hc, sites_eq _ c ▸ List.mem_cons_of_mem _ hx⟩

/-- Where anchors have one number only, what leaves is homed there. -/
theorem leaves_eq_homed {n : NodeId}
    (h : ∀ a, Scope.anchor? o mediaName x.above = some a → a.id = n) :
    x.leaves o = x.homed o n := by
  rw [Bool.eq_iff_iff, Site.leaves_iff, homed_iff]
  exact and_congr_right fun _ => ⟨fun ⟨a, ha, hfree⟩ => ⟨a, ha, h a ha, hfree⟩,
    fun ⟨a, ha, _, hfree⟩ => ⟨a, ha, hfree⟩⟩

/-- Below a child, an anchor that is no root is the child. -/
theorem eq_child_of_scopes {a : Label} (hx : x ∈ sitesAll [c.label, t.label] c.children)
    (hs : Scope.scopes o mediaName x.above = [a, t.label]) : c.label = a := by
  obtain ⟨path, hp⟩ := above_of_mem_sitesAll hx
  obtain ⟨before, hb⟩ := Scope.exists_append_scopes o mediaName x.above
  rw [hs, hp] at hb
  exact (List.cons.inj (List.append_inj_right' hb rfl)).1

/-- Below a child that is no wrapper, what leaves is homed at the root. -/
theorem leaves_eq_homed_root (h : t.IsSheet) (hc : c ∈ t.children)
    (hw : o.wraps c.content = false) (hx : x ∈ sitesAll [c.label, t.label] c.children) :
    x.leaves o = x.homed o t.id := by
  refine leaves_eq_homed fun a ha => ?_
  rcases h.anchor_cases (mem_inner_of_child hc hx) ha with ⟨-, rfl⟩ | ⟨hs, haw, -⟩
  · rfl
  · rw [← eq_child_of_scopes hx hs] at haw
    exact absurd (haw.symm.trans hw) Bool.noConfusion

/-- Below a wrapper that is a child, what leaves is homed at the wrapper. -/
theorem leaves_eq_homed_wrapper (h : t.IsSheet) (hc : c ∈ t.children)
    (hw : o.wraps c.content = true) (hx : x ∈ sitesAll [c.label, t.label] c.children) :
    x.leaves o = x.homed o c.id := by
  refine leaves_eq_homed fun a ha => ?_
  rcases h.anchor_cases (mem_inner_of_child hc hx) ha with ⟨hs, -⟩ | ⟨hs, -⟩
  · -- the root is not the anchor: the wrapper is in between
    obtain ⟨path, hp⟩ := above_of_mem_sitesAll hx
    rcases Scope.scopes_eq_or o mediaName x.above with he | ⟨k, hk, he⟩
    · rw [hs, hp] at he
      simpa using congrArg List.length he
    · rw [hs, hp] at he
      have he : path ++ [c.label, t.label] = [] ++ [k, t.label] := he
      have hck := (List.cons.inj (List.append_inj_right' he rfl)).1
      rw [← hck] at hk
      exact absurd ((Scope.wraps_of_foreign hk).symm.trans hw) Bool.noConfusion
  · rw [← eq_child_of_scopes hx hs]
    rfl

variable {cut : NodeId → Bool}

/-- The blocks that leave for the root. -/
theorem parcels_root (h : t.IsSheet) (hn : t.ids.Nodup) :
    (t.inner.filter (Site.homed o t.id)).map (Site.parcel o) = blocks o (trees t.children) := by
  exact h.anchors_root.parcels (id_not_mem hn)

/-- The blocks that leave for a wrapper. -/
theorem parcels_wrapper (h : t.IsSheet) (hn : t.ids.Nodup) (hc : c ∈ t.children)
    (hw : o.wraps c.content = true) (hm : c.content.isAtRuleNamed mediaName = false) :
    (t.inner.filter (Site.homed o c.id)).map (Site.parcel o) = blocks o (trees c.children) := by
  obtain ⟨before, after, hs⟩ := List.append_of_mem hc
  obtain ⟨hne, hb, hcc, ha⟩ := id_not_mem_of_split hn hs
  have habove : ∀ l ∈ [t.label], l.id ≠ c.id := List.forall_mem_singleton.2 hne
  have hself : Site.homed o c.id ⟨[t.label], c⟩ = false := by
    rw [Site.homed, Bool.and_eq_false_iff]
    exact Or.inl hm
  rw [inner, hs, sitesAll_concat, sitesAll, sites_eq, List.filter_append,
    filter_homed_eq_nil habove hb, List.cons_append, List.filter_cons_of_neg (by simp [hself]),
    List.filter_append, filter_homed_eq_nil habove ha, List.nil_append, List.append_nil]
  exact (h.anchors_wrapper hw hm).parcels hcc

/-- **A child without what leaves the sheet**, if it is no wrapper. -/
theorem tree_prune_child (h : t.IsSheet) (hn : t.ids.Nodup)
    (hcut : ∀ x ∈ t.inner, cut x.id = x.leaves o) (hc : c ∈ t.children)
    (hw : o.wraps c.content = false) : (c.prune cut).tree = trimmed o c.tree := by
  rw [ids_eq, List.nodup_cons, idsAll_eq, List.mem_flatMap, not_exists] at hn
  refine h.anchors_root.tree_prune_child (fun hm => hn.1 c ⟨hc, hm⟩) fun x hx => ?_
  rw [hcut x (mem_inner_of_child hc hx), h.leaves_eq_homed_root hc hw hx]
  rfl

/-- **The children of a wrapper without what leaves the sheet.** -/
theorem trees_prune_wrapper (h : t.IsSheet) (hn : t.ids.Nodup)
    (hcut : ∀ x ∈ t.inner, cut x.id = x.leaves o) (hc : c ∈ t.children)
    (hw : o.wraps c.content = true) (hm : c.content.isAtRuleNamed mediaName = false) :
    trees (pruneAll cut c.children) = rest o (trees c.children) := by
  obtain ⟨before, after, hs⟩ := List.append_of_mem hc
  refine (h.anchors_wrapper hw hm).trees_pruneAll (id_not_mem_of_split hn hs).2.2.1 fun x hx => ?_
  rw [hcut x (mem_inner_of_child hc hx), h.leaves_eq_homed_wrapper hc hw hx]
  rfl

end IsSheet
end Planted
end MediaGrouping
