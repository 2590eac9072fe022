/-
# Taking one block

What a run does with one block of a standing tree. The labels above the block
tell it (`Scope.locate_eq`): a nested wrapper is reported (`capture_of_offence`),
a block with an anchor is taken out of the tree and merged into the anchor's
group (`capture_of_anchor`), and any other is left alone (`capture_of_none`).
-/

import MediaGrouping.Proofs.Grouping.Groups

namespace MediaGrouping

open Grouping (mediaName mergeBlock)

/-- The branch that is torn off with a block: the block, with its children in a
copy of the foreign at-rule above it. -/
def Site.Branch (o : Options) (z : Site) (b : Planted) : Prop :=
  b = z.here ∨ ∃ k rule, z.foreignRule? o = some rule ∧ b = z.here.enclosed k rule

namespace Forest

variable {f : Forest} {t : Planted} {x : Site} {o : Options}

namespace Stands

/-- What stands above a site is found in the forest. -/
theorem site_above (h : f.Stands t) (hx : x ∈ t.sites []) {l : Label} (hl : l ∈ x.above) :
    f.content? l.id = some l.content ∧ f.source? l.id = l.source := by
  obtain ⟨p, hp, rfl, -⟩ := (Planted.exists_site_above hx hl).resolve_left List.not_mem_nil
  exact ⟨h.content? hp, h.source? hp⟩

theorem agrees (h : f.Stands t) (hx : x ∈ t.sites []) : Scope.Agrees f x.above :=
  fun _ hl => (h.site_above hx hl).1

/-- **Where the block at a site belongs.** -/
theorem locate (h : f.Stands t) (hx : x ∈ t.sites []) (he : Scope.Ends mediaName x.above) :
    Scope.locate o mediaName f x.id = match Scope.offence? o mediaName x.above with
      | some w => .error (.nested w.id)
      | none => match Scope.anchor? o mediaName x.above with
        | some a => .ok ⟨some a.id, (Scope.foreign? o mediaName x.above).map Label.id⟩
        | none => .error .tooDeep := by
  rw [Scope.locate, h.ancestors hx]
  exact Scope.locate_eq (h.agrees hx) he

/-- **A block made ready to leave** has the tree of its parcel. -/
theorem prepare (h : f.Stands t) (hx : x ∈ t.inner) (o : Options) (anchor : Option NodeId) :
    ∃ t' b, (Resolver.prepare f x.id
          ⟨anchor, (Scope.foreign? o mediaName x.above).map Label.id⟩).Stands t' ∧
      t'.id = t.id ∧ ⟨x.above, b⟩ ∈ t'.inner ∧ b.id = x.id ∧ b.tree = x.parcel o ∧ x.Branch o b ∧
      t'.prune (· == x.id) = t.prune (· == x.id) ∧
      Spares f (Resolver.prepare f x.id
          ⟨anchor, (Scope.foreign? o mediaName x.above).map Label.id⟩) [t.id] := by
  have hrule : ((Scope.foreign? o mediaName x.above).map Label.id).bind f.atRule?
      = x.foreignRule? o := by
    rw [Site.foreignRule?]
    cases hf : Scope.foreign? o mediaName x.above with
    | none => rfl
    | some l =>
      have hl : l ∈ x.above := List.mem_of_head? (Option.filter_eq_some_iff.1 hf).1
      have hc := (h.site_above (Planted.mem_sites_of_mem_inner hx) hl).1
      rw [Option.map_some, Option.bind_some, Option.bind_some, Forest.atRule?, hc]
      rfl
  rw [Resolver.prepare, hrule, Site.parcel]
  cases hr : x.foreignRule? o with
  | none => exact ⟨t, x.here, h, rfl, hx, rfl, rfl, Or.inl rfl, rfl, Spares.refl f _⟩
  | some rule =>
    obtain ⟨t', h', hid, hx', hp, hs⟩ := h.enclose hx rule
    exact ⟨t', _, h', hid, hx', Label.id_grow _ _, Planted.tree_enclosed _ _ _,
      Or.inr ⟨_, rule, hr, rfl⟩, hp, hs⟩

end Stands
end Forest

namespace NestedWrapper

/-- The error for a wrapper with a label. -/
def ofLabel (l : Label) : NestedWrapper :=
  match l.content.atRule? with
  | some r => ⟨r.name, r.params, l.source⟩
  | none => ⟨l.content.typeName, [], l.source⟩

theorem ofNode_eq {f : Forest} {l : Label} (hc : f.content? l.id = some l.content)
    (hs : f.source? l.id = l.source) : ofNode f l.id = ofLabel l := by
  rw [ofNode, ofLabel, Forest.atRule?, hc, hs]
  rfl

end NestedWrapper
namespace Capture

open Forest Aggregator

variable {o : Options} {s : Capture} {root n first : NodeId} {t : Planted} {x : Site} {a : Label}
  {table : Table}

/-- A block with an anchor goes to the group that has the number of the anchor. -/
theorem capture_eq {block : NodeId} {foreign : Option NodeId}
    (hl : Scope.locate o mediaName s.forest block = .ok ⟨some n, foreign⟩)
    (hr : s.forest.holds Content.isRoot n = true ↔ n = root)
    (hk : Keeps root s.resolver s.aggregator table) :
    ∃ (r : Resolver) (id : GroupId) (kind : GroupKind), (root :: r.anchors).Nodup ∧
      (∀ g, s.resolver.Numbers root g → r.Numbers root g) ∧
      (∀ m, r.Numbers root ⟨id, n, kind, m⟩) ∧
      Grouping.capture o root s block = .ok { s with
        forest := (s.aggregator.aggregate (Resolver.prepare s.forest block ⟨some n, foreign⟩)
          id n kind block).2
        resolver := r
        aggregator := (s.aggregator.aggregate (Resolver.prepare s.forest block ⟨some n, foreign⟩)
          id n kind block).1 } := by
  by_cases hn : n = root
  · have hh := hr.2 hn
    refine ⟨s.resolver, Resolver.rootGroupId, .root, hk.anchors, fun _ h => h,
      fun m => hn ▸ Resolver.numbers_root m, ?_⟩
    simp only [Grouping.capture, Resolver.resolve, hl, Resolver.assign, if_pos hh]
    rw [hn]
  · have hh : s.forest.holds Content.isRoot n ≠ true := fun h => hn (hr.1 h)
    obtain ⟨h₁, h₂, h₃⟩ := Resolver.numbers_groupId hk.anchors hn
    refine ⟨(s.resolver.groupId n).2, (s.resolver.groupId n).1, .wrapper, h₁, h₂, h₃, ?_⟩
    simp only [Grouping.capture, Resolver.resolve, hl, Resolver.assign, if_neg hh]

/-- **What taking a block leaves**: the block out of its tree, and merged into
the copies of the anchor `n`. -/
structure Takes (o : Options) (root first : NodeId) (table : Table) (n : NodeId) (t : Planted)
    (x : Site) (s s' : Capture) (m : Registry Planted) (b : Planted) : Prop where
  merged : m.mapValues Planted.tree = mergeBlock ((table n).mapValues Planted.tree) (x.parcel o)
  pruned : s'.forest.Stands (t.prune (· == x.id))
  apart : s'.forest.Stands b
  branch : x.Branch o b
  spares : Spares s.forest s'.forest (t.id :: (table n).tops)
  keeps : Keeps root s'.resolver s'.aggregator (Function.update table n m)
  holds : Holds s'.forest first (Function.update table n m)

/-- **A block with an anchor is taken.** -/
theorem capture_of_anchor (h : s.forest.Stands t) (hx : x ∈ t.inner)
    (he : Scope.Ends mediaName x.above) (hno : Scope.offence? o mediaName x.above = none)
    (ha : Scope.anchor? o mediaName x.above = some a)
    (hr : a.content.isRoot = true ↔ a.id = root) (hk : Keeps root s.resolver s.aggregator table)
    (hh : Holds s.forest first table) (ht : t.id < first) (hf : first ≤ s.forest.size) :
    ∃ s' m b, Grouping.capture o root s x.id = .ok s' ∧
      Takes o root first table a.id t x s s' m b := by
  have hxs := Planted.mem_sites_of_mem_inner hx
  have hl := h.locate (o := o) hxs he
  rw [hno, ha] at hl
  have hroot : s.forest.holds Content.isRoot a.id = true ↔ a.id = root := by
    rw [Forest.holds, (h.site_above hxs (Scope.mem_of_anchor? ha)).1, Option.any_some]
    exact hr
  obtain ⟨r, id, kind, h₁, h₂, h₃, hcap⟩ := capture_eq hl hroot hk
  obtain ⟨t', b, ht', hid, hb, hbid, hbt, hbr, hprune, hs₁⟩ := h.prepare hx o (some a.id)
  have hh₁ := hh.spares hs₁ ht
  obtain ⟨m, hg, habs⟩ := ht'.absorb (Planted.mem_sites_of_mem_inner hb)
    (g := ⟨id, a.id, kind, (table a.id).mapValues Planted.id⟩) rfl (hh₁.stands a.id)
    (hh₁.nodup a.id) fun hm => Nat.not_lt.2 (hh₁.fresh a.id _ hm) (hid ▸ ht)
  have hxb : (Site.mk x.above b).id = x.id := hbid
  rw [hxb] at hg habs
  have hm : m ≠ [] := fun he => by
    have := habs.merged
    rw [he] at this
    exact Registry.update_ne_nil _ _ this.symm
  obtain ⟨hf', hk'⟩ := hk.aggregate x.id h₁ h₂ h₃ (Prod.ext hg rfl) hm
  rw [hf'] at hcap
  refine ⟨_, m, b, hcap, habs.merged.trans (by rw [hbt]), ?_, habs.apart, hbr, ?_, hk', ?_⟩
  · have := habs.pruned
    rwa [hxb, hprune] at this
  · exact (hs₁.mono (List.cons_subset_cons _ (List.nil_subset _))).trans (hid ▸ habs.spares)
  · exact hh₁.absorbed (hf.trans hs₁.size_le) (hid.symm ▸ ht) habs

/-- A block below a nested wrapper ends the run, as it was. -/
theorem capture_of_offence {w : Label} (h : s.forest.Stands t) (hx : x ∈ t.sites [])
    (he : Scope.Ends mediaName x.above) (hw : Scope.offence? o mediaName x.above = some w) :
    Grouping.capture o root s x.id = .error (NestedWrapper.ofLabel w, s) := by
  have hl := h.locate (o := o) hx he
  rw [hw] at hl
  have hwm : w ∈ x.above := Scope.mem_of_offence? hw
  obtain ⟨hc, hs⟩ := h.site_above hx hwm
  simp only [Grouping.capture, Resolver.resolve, hl, NestedWrapper.ofNode_eq hc hs]

/-- A block without an anchor stays. -/
theorem capture_of_none (root : NodeId) (h : s.forest.Stands t) (hx : x ∈ t.sites [])
    (he : Scope.Ends mediaName x.above) (hno : Scope.offence? o mediaName x.above = none)
    (ha : Scope.anchor? o mediaName x.above = none) :
    ∃ s', Grouping.capture o root s x.id = .ok s' ∧ s'.forest = s.forest ∧
      s'.resolver = s.resolver ∧ s'.aggregator = s.aggregator := by
  have hl := h.locate (o := o) hx he
  rw [hno, ha] at hl
  simp only [Grouping.capture, Resolver.resolve, hl]
  exact ⟨_, rfl, rfl, rfl, rfl⟩

end Capture
end MediaGrouping
