/-
# Blocks inside blocks that have left

A block that leaves a sheet is torn off with everything in it, the blocks inside
it being strays from then on. A torn tree has a block at its top and no root, so
that a stray can be taken only if that block is a wrapper. If no block of a
sheet is a wrapper, a stray is below a nested wrapper exactly if it was so in the
sheet (`IsStray.of_branch`).
-/

import MediaGrouping.Proofs.Grouping.Sheets
import MediaGrouping.Proofs.Grouping.Taking

namespace MediaGrouping

open Grouping (mediaName)

/-- No block of a sheet is a wrapper, and having a block makes no at-rule one. -/
structure Mild (o : Options) (t : Planted) : Prop where
  media : ∀ x ∈ t.inner, x.isMedia = true → o.wraps x.here.content = false
  blind : ∀ c, o.wraps (Content.withBlock c) = o.wraps c

/-- **A tree torn off a sheet**, with a block at its top. -/
structure Torn (o : Options) (t d : Planted) : Prop where
  id_mem : d.id ∈ t.ids
  id_ne : d.id ≠ t.id
  media : d.content.isAtRuleNamed mediaName = true
  rootless : ∀ y ∈ d.sites [], y.here.content.isRoot = false
  mild : Mild o t → o.wraps d.content = false

/-- A site of a sheet whose node is in a torn tree. -/
def IsStray (o : Options) (f : Forest) (t : Planted) (x : Site) : Prop :=
  ∃ d z, f.Stands d ∧ Torn o t d ∧ z ∈ d.inner ∧ z.id = x.id ∧ z.isMedia = true ∧
    (Mild o t → Scope.offence? o mediaName z.above = Scope.offence? o mediaName x.above)

variable {o : Options} {f f' : Forest} {t b d : Planted} {x y z : Site} {path : List Label}

theorem Mild.wraps_grow (h : Mild o t) (l : Label) (n : NodeId) :
    o.wraps (l.grow n).content = o.wraps l.content := by
  rw [Label.grow]
  split_ifs
  · exact h.blind l.content
  · rfl

/-- A copy of a foreign at-rule is no wrapper either. -/
theorem Mild.wraps_copy (h : Mild o t) {rule : AtRule} (hr : z.foreignRule? o = some rule) :
    o.wraps (.atRule { rule with hasBlock := true }) = false := by
  obtain ⟨l, hl, hc⟩ := Option.bind_eq_some_iff.1 hr
  obtain ⟨-, hf⟩ := Option.filter_eq_some_iff.1 hl
  have hlr : l.content = .atRule rule := Content.eq_of_atRule? hc
  have := h.blind (.atRule rule)
  rw [Content.withBlock] at this
  rw [this, ← hlr, Scope.wraps_of_foreign hf]

namespace Site.Branch

theorem id_eq (h : z.Branch o b) : b.id = z.id := by
  rcases h with rfl | ⟨k, rule, -, rfl⟩
  · rfl
  · exact Label.id_grow _ _

theorem media (h : z.Branch o b) (hz : z.isMedia = true) :
    b.content.isAtRuleNamed mediaName = true := by
  rcases h with rfl | ⟨k, rule, -, rfl⟩
  · exact hz
  · rw [Planted.enclosed, Planted.content_node, Label.grow, if_pos (Planted.id_label _)]
    exact (Content.isAtRuleNamed_withBlock _ _).trans hz

/-- What is below a block is in its branch too. -/
theorem exists_inner (h : z.Branch o b)
    (hy : y ∈ Planted.sitesAll (z.here.label :: z.above) z.here.children) :
    ∃ path tail, y.above = path ++ z.here.label :: z.above ∧ ⟨path ++ tail, y.here⟩ ∈ b.inner ∧
      (tail = [z.here.label] ∨ ∃ k rule, z.foreignRule? o = some rule ∧
        tail = [⟨k, .atRule { rule with hasBlock := true }, none⟩, z.here.label.grow z.id]) := by
  obtain ⟨path, hp, hother⟩ := Planted.exists_site_elsewhere hy
  rcases h with rfl | ⟨k, rule, hr, rfl⟩
  · exact ⟨path, _, hp, hother [z.here.label], Or.inl rfl⟩
  · refine ⟨path, _, hp, ?_, Or.inr ⟨k, rule, hr, rfl⟩⟩
    rw [Planted.enclosed, Planted.inner, Planted.children_node, Planted.label_node,
      Planted.sitesAll_singleton, Planted.sites]
    exact List.mem_cons_of_mem _ (hother _)

/-- A branch has no root if there is none in what it was torn from. -/
theorem rootless (h : z.Branch o b) (hz : z.isMedia = true)
    (hr : ∀ y ∈ z.here.sites z.above, y.here.content.isRoot = false) :
    ∀ y ∈ b.sites [], y.here.content.isRoot = false := by
  have htop : b.content.isRoot = false := Scope.isRoot_of_named (h.media hz)
  have hinner : ∀ y ∈ Planted.sitesAll (z.here.label :: z.above) z.here.children,
      y.here.content.isRoot = false := fun y hy =>
    hr y (Planted.sites_eq z.above z.here ▸ List.mem_cons_of_mem _ hy)
  intro y hy
  rw [Planted.sites_eq, List.mem_cons] at hy
  rcases hy with rfl | hy
  · exact htop
  · rcases h with rfl | ⟨k, rule, -, rfl⟩
    · obtain ⟨path, -, hother⟩ := Planted.exists_site_elsewhere hy
      exact hinner ⟨path ++ z.here.label :: z.above, y.here⟩ (hother _)
    · rw [Planted.enclosed, Planted.children_node, Planted.sitesAll_singleton, Planted.sites,
        List.mem_cons] at hy
      rcases hy with rfl | hy
      · rfl
      · obtain ⟨path, -, hother⟩ := Planted.exists_site_elsewhere hy
        exact hinner ⟨path ++ z.here.label :: z.above, y.here⟩ (hother _)

/-- **An offence in what was torn off is one in the sheet.** -/
theorem offence?_eq (hm : Mild o t) (hz : o.wraps z.here.content = false)
    (hzm : z.isMedia = true) {tail : List Label}
    (ht : tail = [z.here.label] ∨ ∃ k rule, z.foreignRule? o = some rule ∧
        tail = [⟨k, .atRule { rule with hasBlock := true }, none⟩, z.here.label.grow z.id]) :
    Scope.offence? o mediaName (path ++ tail)
      = Scope.offence? o mediaName (path ++ z.here.label :: z.above) := by
  have hnf : Scope.foreign o mediaName z.here.label.content = false := Scope.foreign_of_named hzm
  have hz : o.wraps z.here.label.content = false := hz
  have hside : ∀ rest : List Label, Scope.foreign o mediaName z.here.label.content = true →
      ∀ b ∈ rest.head?, o.wraps b.content = false := fun _ h => by
    rw [hnf] at h
    cases h
  rw [Scope.offence?_append hz (hside z.above)]
  rcases ht with rfl | ⟨k, rule, hr, rfl⟩
  · exact Scope.offence?_append hz (hside [])
  · refine Scope.offence?_append (hm.wraps_copy hr) fun _ b hb => ?_
    rw [← Option.some.inj hb, hm.wraps_grow, hz]

end Site.Branch

/-- **The branch of a block is torn off.** -/
theorem Torn.of_branch (h : z.Branch o b) (hz : z.isMedia = true) (hi : z.id ∈ t.ids)
    (hne : z.id ≠ t.id) (hr : ∀ y ∈ z.here.sites z.above, y.here.content.isRoot = false)
    (hm : Mild o t → o.wraps z.here.content = false) : Torn o t b where
  id_mem := h.id_eq ▸ hi
  id_ne := h.id_eq ▸ hne
  media := h.media hz
  rootless := h.rootless hz hr
  mild := fun hmild => by
    rcases h with rfl | ⟨k, rule, -, rfl⟩
    · exact hm hmild
    · exact (hmild.wraps_grow z.here.label z.id).trans (hm hmild)

/-- A torn tree stays one when it is pruned. -/
theorem Torn.prune (h : Torn o t d) (cut : NodeId → Bool) (hc : cut d.id = false) :
    Torn o t (d.prune cut) where
  id_mem := (Planted.id_prune cut d).symm ▸ h.id_mem
  id_ne := (Planted.id_prune cut d).symm ▸ h.id_ne
  media := (Planted.content_prune cut d).symm ▸ h.media
  rootless := fun y hy => by
    obtain ⟨x, hx, -, -, rfl⟩ := (Planted.mem_sites_prune cut hc).1 hy
    exact (congrArg Content.isRoot (Planted.content_prune cut x.here)).trans (h.rootless x hx)
  mild := fun hm => (Planted.content_prune cut d).symm ▸ h.mild hm

/-- Above a site of a torn tree stand the block at the top and nodes that are no root. -/
theorem Torn.exists_above (h : Torn o t d) (hz : z ∈ d.inner) :
    ∃ path, z.above = path ++ [d.label] ∧ ∀ l ∈ path, l.content.isRoot = false := by
  obtain ⟨path, hp⟩ := Planted.above_of_mem_sitesAll hz
  refine ⟨path, hp, fun l hl => ?_⟩
  obtain ⟨p, hps, rfl, -⟩ := (Planted.exists_site_above (l := l)
    (Planted.mem_sites_of_mem_inner hz) (hp ▸ List.mem_append_left _ hl)).resolve_left
      List.not_mem_nil
  exact h.rootless p hps

namespace IsStray

/-- A block in a branch that is torn off becomes a stray. -/
theorem of_branch (h : z.Branch o b) (hb : f.Stands b) (ht : Torn o t b) (hz : z.isMedia = true)
    (hw : Mild o t → o.wraps z.here.content = false)
    (hy : y ∈ Planted.sitesAll (z.here.label :: z.above) z.here.children)
    (hym : y.isMedia = true) (hi : y.id = x.id)
    (ho : Mild o t → Scope.offence? o mediaName y.above = Scope.offence? o mediaName x.above) :
    IsStray o f t x := by
  obtain ⟨path, tail, hp, hin, htail⟩ := h.exists_inner hy
  refine ⟨b, _, hb, ht, hin, hi, hym, fun hm => ?_⟩
  rw [← ho hm, hp]
  exact Site.Branch.offence?_eq hm (hw hm) hz htail

/-- A stray remains one if its tree is spared. -/
theorem spared (h : IsStray o f t x) {tops : List NodeId} (hs : Forest.Spares f f' tops)
    (ht : ∀ d, Torn o t d → d.id ∉ tops) : IsStray o f' t x := by
  obtain ⟨d, z, hd, hdt, hz, hi, hm, ho⟩ := h
  exact ⟨d, z, hs.stands d hd (ht d hdt), hdt, hz, hi, hm, ho⟩

/-- A stray outside a branch that is pruned remains one. -/
theorem of_prune (hd : f.Stands (d.prune (· == z.id))) (ht : Torn o t d) (hz : z.id ≠ d.id)
    (hy : y ∈ d.inner) (hne : y.id ≠ z.id) (ha : ∀ l ∈ y.above, l.id ≠ z.id)
    (hym : y.isMedia = true) (hi : y.id = x.id)
    (ho : Mild o t → Scope.offence? o mediaName y.above = Scope.offence? o mediaName x.above) :
    IsStray o f t x := by
  have htop : (d.id == z.id) = false := beq_eq_false_iff_ne.2 hz.symm
  refine ⟨_, y.prune (· == z.id), hd, ht.prune (· == z.id) htop, ?_, (y.id_prune _).trans hi, ?_,
    ho⟩
  · rw [Planted.inner_prune (· == z.id) htop]
    refine List.mem_map_of_mem (List.mem_filter.2 ⟨hy, ?_⟩)
    rw [Site.spared, Bool.and_eq_true, List.all_eq_true]
    exact ⟨by simpa using hne, fun l hl => by simpa using ha l hl⟩
  · exact (congrArg (Content.isAtRuleNamed mediaName)
      (Planted.content_prune (· == z.id) y.here)).trans hym

/-- **A block that is taken out of a torn tree** leaves the other strays strays. -/
theorem taken {s s' : Capture} {root first : NodeId} {table : Table} {m : Registry Planted}
    (h : IsStray o s.forest t x) (hnm : ¬Mild o t) (hd : s.forest.Stands d) (hz : z ∈ d.inner)
    (hzm : z.isMedia = true) (hzt : z.id ∈ t.ids) (hzn : z.id ≠ t.id) (hxz : x.id ≠ z.id)
    (hfresh : ∀ k ∈ t.ids, k ∉ (table d.id).tops)
    (ht : Capture.Takes o root first table d.id d z s s' m b) : IsStray o s'.forest t x := by
  have hzs := Planted.mem_sites_of_mem_inner hz
  obtain ⟨e, y, he, het, hy, hyi, hym, ho⟩ := h
  by_cases hed : e.id = d.id
  · obtain rfl := he.eq_of_id_eq hd hed
    by_cases hin : ∃ l ∈ y.above, l.id = z.id
    · -- the stray leaves with the block
      obtain ⟨l, hl, hli⟩ := hin
      obtain ⟨p, hp, rfl, hpy⟩ := (Planted.exists_site_above
        (Planted.mem_sites_of_mem_inner hy) hl).resolve_left List.not_mem_nil
      obtain rfl := Planted.eq_of_id_eq he.nodup hp hzs hli
      have htorn : Torn o t b := Torn.of_branch ht.branch hzm hzt hzn
        (fun v hv => het.rootless v (Planted.sites_trans hzs hv)) fun hm => absurd hm hnm
      exact of_branch ht.branch ht.apart htorn hzm (fun hm => absurd hm hnm) hpy hym hyi ho
    · push Not at hin
      exact of_prune ht.pruned het (Planted.top_ne_inner he.nodup hz).symm hy (hyi ▸ hxz) hin hym
        hyi ho
  · refine ⟨e, y, ht.spares.stands e he fun hm => ?_, het, hy, hyi, hym, ho⟩
    rcases List.mem_cons.1 hm with hm | hm
    · exact hed hm
    · exact hfresh _ het.id_mem hm

end IsStray
end MediaGrouping
