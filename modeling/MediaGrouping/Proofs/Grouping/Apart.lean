/-
# A run keeps the links of the forest

While a run works, some nodes are apart from the sheet: the annotation that was set
aside with what is below it, and the copies that the groups keep. A node below one that
is apart is apart, so that nothing of the sheet is ever below what is put back into it
(`Apart`). Blocks and anchors are never apart, merged blocks always are (`Gathered`), and
so every node that a run puts back is hung under one that is not below it: a run leaves
a linked forest linked, whether it ends or is given up (`Grouping.linked_transform`).
-/

import MediaGrouping.Proofs.Forest.Relinking
import MediaGrouping.Proofs.Grouping.Stages

namespace MediaGrouping

namespace Scope

variable {o : Options} {name : Text} {f : Forest} {n : NodeId} {above : List NodeId}
  {place : Place}

/-- The anchor is the one found so far, or further up. -/
theorem mem_of_climb {anchor : Option NodeId} (h : climb o f anchor above = .ok (some n)) :
    anchor = some n ∨ n ∈ above := by
  induction above generalizing anchor with
  | nil => exact .inl (Except.ok.inj h)
  | cons m above ih =>
    rw [climb.eq_def] at h
    dsimp only at h
    split at h
    · cases anchor with
      | none =>
        rcases ih h with he | hm
        · exact .inr (Option.some.inj he ▸ List.mem_cons_self)
        · exact .inr (List.mem_cons_of_mem _ hm)
      | some a =>
        dsimp only at h
        split at h
        · cases h
        · exact (ih h).imp_right (List.mem_cons_of_mem _)
    · cases h

/-- **The anchor of a block is one of its ancestors.** -/
theorem mem_of_locateBelow (h : locateBelow o name f above = .ok place)
    (ha : place.anchor = some n) : n ∈ above := by
  have hmap : ∀ {ns : List NodeId} {foreign : Option NodeId},
      (climb o f none ns).map (⟨·, foreign⟩) = .ok place → n ∈ ns := by
    intro ns foreign h
    cases hclimb : climb o f none ns with
    | error e =>
      rw [hclimb] at h
      cases h
    | ok anchor =>
      rw [hclimb] at h
      cases h
      obtain rfl : anchor = some n := ha
      exact (mem_of_climb hclimb).resolve_left nofun
  cases above with
  | nil =>
    cases h
    cases ha
  | cons m above =>
    rw [locateBelow] at h
    split_ifs at h
    · exact List.mem_cons_of_mem _ (hmap h)
    · exact hmap h

end Scope

namespace Resolver

variable {o : Options} {name : Text} {k k' : Resolver} {f f' : Forest} {block anchor : NodeId}
  {id : GroupId}

/-- **A wrapper's group is anchored above the block.** -/
theorem within_of_resolve
    (h : k.resolve o name f block = .ok (.wrapperGroup id anchor, k', f')) :
    f.Within block anchor := by
  rw [resolve] at h
  split at h
  · cases h
  · cases h
  · next place hplace =>
    have hassign : (k.assign f place).1 = .wrapperGroup id anchor :=
      congrArg Prod.fst (Except.ok.inj h)
    rw [assign] at hassign
    split at hassign
    · cases hassign
    · next a ha =>
      split_ifs at hassign
      obtain rfl : a = anchor := (Resolution.wrapperGroup.inj hassign).2
      exact Forest.within_of_mem_ancestorsUpTo _ (Scope.mem_of_locateBelow hplace ha)

end Resolver

/-- Nodes of a linked forest that are apart: what is below them is apart as well. -/
structure Apart (apart : NodeId → Prop) (f : Forest) : Prop where
  linked : f.Linked
  lt_size : ∀ {n}, apart n → n < f.size
  down : ∀ {n p}, f.parent? n = some p → apart p → apart n

/-- A node of a forest that is not apart. -/
structure Present (apart : NodeId → Prop) (f : Forest) (n : NodeId) : Prop where
  lt_size : n < f.size
  not_apart : ¬ apart n

/-- What groups keep: anchors that are not apart, and merged blocks that are. -/
structure Gathered (apart : NodeId → Prop) (a : Aggregator) (f : Forest) : Prop
    extends Apart apart f where
  anchors : ∀ g ∈ a.groups, Present apart f g.anchor
  merged : ∀ g ∈ a.groups, ∀ e ∈ g.merged, apart e.2

/-- A larger forest, in which of the old nodes the same are apart. -/
structure Extends (apart : NodeId → Prop) (f : Forest) (apart' : NodeId → Prop) (f' : Forest) :
    Prop where
  size_le : f.size ≤ f'.size
  iff : ∀ n < f.size, apart' n ↔ apart n

variable {apart apart' apart'' : NodeId → Prop} {f f' f'' : Forest} {r : NodeId → NodeId → Prop}
  {n m p c root block anchor : NodeId} {o : Options} {a : Aggregator} {id : GroupId}
  {kind : GroupKind} {g : Group} {s s' : Capture}

open Forest (Relinked)

namespace Extends

theorem of_size_le (h : f.size ≤ f'.size) : Extends apart f apart f' := ⟨h, fun _ _ => Iff.rfl⟩

theorem trans (h : Extends apart f apart' f') (h' : Extends apart' f' apart'' f'') :
    Extends apart f apart'' f'' :=
  ⟨h.size_le.trans h'.size_le, fun n hn =>
    (h'.iff n (hn.trans_le h.size_le)).trans (h.iff n hn)⟩

theorem present (h : Extends apart f apart' f') (hn : Present apart f n) : Present apart' f' n :=
  ⟨hn.lt_size.trans_le h.size_le, fun ha => hn.not_apart ((h.iff n hn.lt_size).1 ha)⟩

end Extends

namespace Apart

/-- What is apart is still so if no node that is not was hung under one that is. -/
theorem relinked (h : Apart apart f) (hr : Relinked f f' r)
    (hd : ∀ n p, r n p → apart p → apart n) : Apart apart f' :=
  ⟨hr.linked, fun hn => (h.lt_size hn).trans_le hr.size_le, fun hp ha =>
    (hr.parent hp).elim (fun hp => h.down hp ha) fun hnew => hd _ _ hnew ha⟩

/-- **What a present node is within is present.** -/
theorem present_of_within (h : Apart apart f) (hn : Present apart f n) (hw : f.Within n m) :
    Present apart f m := by
  induction hw with
  | refl => exact hn
  | tail _ hl ih =>
    exact ⟨h.linked.lt_size_of_parent hl, fun ha => ih.not_apart (h.down hl ha)⟩

/-- A present node is not within one that is apart. -/
theorem not_within (h : Apart apart f) (hn : Present apart f n) (hm : apart m) :
    ¬ f.Within n m :=
  fun hw => (h.present_of_within hn hw).not_apart hm

/-- **Nodes that are new, and hung under others, are apart as well.** -/
theorem widen (h : Apart apart f) (hr : Relinked f f' fun n _ => f.size ≤ n) :
    Apart (fun n => apart n ∨ f.size ≤ n ∧ n < f'.size) f' ∧
      Extends apart f (fun n => apart n ∨ f.size ≤ n ∧ n < f'.size) f' := by
  refine ⟨⟨hr.linked, fun hn => ?_, fun {n p} hp ha => ?_⟩, hr.size_le, fun n hn => ?_⟩
  · exact hn.elim (fun hn => (h.lt_size hn).trans_le hr.size_le) And.right
  · rcases hr.parent hp with hold | hnew
    · rcases ha with ha | ha
      · exact .inl (h.down hold ha)
      · exact absurd (h.linked.lt_size_of_parent hold) ha.1.not_gt
    · exact .inr ⟨hnew, Forest.lt_size_of_parent? hp⟩
  · exact or_iff_left fun hnew => absurd hn hnew.1.not_gt

/-- **Nodes that are apart are appended to a present one.** -/
theorem appendAll {cs : List NodeId} (h : Apart apart f) (hp : Present apart f p)
    (hcs : ∀ c ∈ cs, apart c) :
    Apart apart (f.appendAll p cs) ∧ f.size ≤ (f.appendAll p cs).size := by
  have hr := h.linked.appendAll hp.lt_size (fun c hc => h.lt_size (hcs c hc))
    fun c hc => h.not_within hp (hcs c hc)
  exact ⟨h.relinked hr fun n q hnew _ => hcs n hnew.1, hr.size_le⟩

theorem unwrap (h : Apart apart f) (n : NodeId) :
    Apart apart (f.unwrap n) ∧ f.size ≤ (f.unwrap n).size :=
  ⟨h.relinked (h.linked.unwrap n) fun _ _ hnew ha => h.down hnew.1 (h.down hnew.2 ha),
    (h.linked.unwrap n).size_le⟩

theorem unwrapAll (ns : List NodeId) (h : Apart apart f) :
    Apart apart (ns.foldl Forest.unwrap f) ∧ f.size ≤ (ns.foldl Forest.unwrap f).size := by
  induction ns generalizing f with
  | nil => exact ⟨h, le_rfl⟩
  | cons n ns ih =>
    obtain ⟨hn, hsize⟩ := h.unwrap n
    obtain ⟨hns, hle⟩ := ih hn
    exact ⟨hns, hsize.trans hle⟩

/-- **What is below a present node is present**, if what is apart hangs only under what is
apart. -/
theorem present_of_descendants (h : Apart apart f)
    (hup : ∀ {n p}, f.parent? n = some p → apart n → apart p) (limit : Nat) :
    ∀ {n}, ¬ apart n → ∀ m ∈ f.descendantsUpTo limit n, Present apart f m := by
  induction limit with
  | zero => exact fun _ _ hm => absurd hm List.not_mem_nil
  | succ limit ih =>
    intro n hn m hm
    obtain ⟨c, hc, hm⟩ := List.mem_flatMap.1 hm
    have hparent := h.linked.parent_iff.2 hc
    have hca : ¬ apart c := fun ha => hn (hup hparent ha)
    rcases List.mem_cons.1 hm with rfl | hm
    · exact ⟨Forest.lt_size_of_parent? hparent, hca⟩
    · split_ifs at hm
      · exact ih hca m hm
      · cases hm

end Apart

namespace Gathered

theorem relinked (h : Gathered apart a f) (hr : Relinked f f' r)
    (hd : ∀ n p, r n p → apart p → apart n) : Gathered apart a f' :=
  ⟨h.toApart.relinked hr hd,
    fun g hg => (Extends.of_size_le hr.size_le).present (h.anchors g hg), h.merged⟩

/-- **A block that is taken in leaves a copy that is apart.** -/
theorem aggregate (h : Gathered apart a f) (ha : Present apart f anchor) (id : GroupId)
    (kind : GroupKind) (block : NodeId) :
    ∃ apart', Gathered apart' (a.aggregate f id anchor kind block).1
        (a.aggregate f id anchor kind block).2 ∧
      Extends apart f apart' (a.aggregate f id anchor kind block).2 := by
  have hr : Relinked f (a.aggregate f id anchor kind block).2 fun n _ => f.size ≤ n :=
    Aggregator.relinked_aggregate h.linked fun g hg e he => h.lt_size (h.merged g hg e he)
  obtain ⟨hw, he⟩ := h.toApart.widen hr
  refine ⟨_, ⟨hw, fun g hg => ?_, fun g hg e hm => ?_⟩, he⟩
  · rcases (Aggregator.mem_groups_aggregate hg).1 with ⟨k, hk, hka⟩ | hka
    · exact hka ▸ he.present (h.anchors k hk)
    · exact hka ▸ he.present ha
  · rcases (Aggregator.mem_groups_aggregate hg).2 e hm with ⟨k, hk, hek⟩ | ⟨hnew, hsize⟩
    · exact .inl (h.merged k hk e hek)
    · exact .inr ⟨hnew.ge, hnew ▸ hsize⟩

end Gathered

namespace Grouping

/-- **One block more, taken in or left**: what was apart still is, and of the nodes there
were no others are. -/
theorem gathered_of_capture (h : Gathered apart s.aggregator s.forest)
    (hroot : Present apart s.forest root) (hb : Present apart s.forest block)
    (hc : capture o root s block = .ok s') :
    ∃ apart', Gathered apart' s'.aggregator s'.forest ∧
      Extends apart s.forest apart' s'.forest := by
  cases hresolve : s.resolver.resolve o mediaName s.forest block with
  | error e =>
    rw [capture, hresolve] at hc
    cases hc
  | ok x =>
    obtain ⟨x, k, f⟩ := x
    have hr := h.linked.resolve hb.lt_size hresolve
    have he : Extends apart s.forest apart f := Extends.of_size_le hr.size_le
    have hg : Gathered apart s.aggregator f := h.relinked hr fun n q hnew ha => by
      rcases hnew with hnew | rfl
      · exact absurd (h.lt_size ha) hnew.not_gt
      · exact absurd ha hb.not_apart
    cases x with
    | tooDeep =>
      rw [capture, hresolve] at hc
      cases hc
      exact ⟨apart, hg, he⟩
    | rootGroup =>
      rw [capture, hresolve] at hc
      cases hc
      obtain ⟨apart', hg', he'⟩ := hg.aggregate (he.present hroot) Resolver.rootGroupId .root block
      exact ⟨apart', hg', he.trans he'⟩
    | wrapperGroup id anchor =>
      have hanchor := h.present_of_within hb (Resolver.within_of_resolve hresolve)
      rw [capture, hresolve] at hc
      cases hc
      obtain ⟨apart', hg', he'⟩ := hg.aggregate (he.present hanchor) id .wrapper block
      exact ⟨apart', hg', he.trans he'⟩

/-- **Taking blocks in, up to the first nested wrapper.** -/
theorem gathered_of_captureAll (blocks : List NodeId) :
    ∀ {apart : NodeId → Prop} {s : Capture}, Gathered apart s.aggregator s.forest →
      Present apart s.forest root → (∀ b ∈ blocks, Present apart s.forest b) →
      ∃ apart', Gathered apart' (captureAll o root s blocks).1.aggregator
          (captureAll o root s blocks).1.forest ∧
        Extends apart s.forest apart' (captureAll o root s blocks).1.forest := by
  induction blocks with
  | nil => exact fun h _ _ => ⟨_, h, Extends.of_size_le le_rfl⟩
  | cons block blocks ih =>
    intro apart s h hroot hbs
    rw [List.forall_mem_cons] at hbs
    rw [captureAll]
    cases hc : capture o root s block with
    | error ended =>
      obtain rfl := unchanged_of_capture hc
      exact ⟨apart, h, Extends.of_size_le le_rfl⟩
    | ok s' =>
      obtain ⟨apart', h', he⟩ := gathered_of_capture h hroot hbs.1 hc
      obtain ⟨apart'', h'', he'⟩ :=
        ih h' (he.present hroot) fun b hb => he.present (hbs.2 b hb)
      exact ⟨apart'', h'', he.trans he'⟩

theorem mem_sortedBlocks (h : n ∈ sortedBlocks o g) : ∃ e ∈ g.merged, e.2 = n := by
  obtain ⟨query, -, hq⟩ := List.mem_filterMap.1 h
  exact ⟨_, Registry.mem_of_find? hq, rfl⟩

/-- **Putting the merged blocks of groups back.** -/
theorem apart_emit (gs : List Group) (h : Apart apart f)
    (hgs : ∀ g ∈ gs, Present apart f g.anchor ∧ ∀ e ∈ g.merged, apart e.2) :
    Apart apart (emit o f gs) ∧ f.size ≤ (emit o f gs).size := by
  induction gs generalizing f with
  | nil => exact ⟨h, le_rfl⟩
  | cons g gs ih =>
    rw [List.forall_mem_cons] at hgs
    have hone : Apart apart (emitGroup o f g) ∧ f.size ≤ (emitGroup o f g).size := by
      have hblocks : ∀ n ∈ sortedBlocks o g, apart n := fun n hn => by
        obtain ⟨e, he, rfl⟩ := mem_sortedBlocks hn
        exact hgs.1.2 e he
      have ha := h.appendAll hgs.1.1 hblocks
      rw [emitGroup]
      cases g.kind with
      | root => exact ha
      | wrapper => exact ⟨(ha.1.unwrap g.anchor).1, ha.2.trans (ha.1.unwrap g.anchor).2⟩
    obtain ⟨hrest, hsize⟩ := ih hone.1 fun k hk =>
      ⟨(Extends.of_size_le hone.2).present (hgs.2 k hk).1, (hgs.2 k hk).2⟩
    exact ⟨hrest, hone.2.trans hsize⟩

/-- **An annotation that was set aside is apart**, with what is below it. -/
theorem apart_detach (h : f.Linked) (hr : root < f.size) (hc : c ∈ f.children root) :
    ∃ apart : NodeId → Prop, Apart apart (f.detach c) ∧ Present apart (f.detach c) root ∧ apart c ∧
      ∀ {n p}, (f.detach c).parent? n = some p → apart n → apart p := by
  obtain ⟨hd, hfree⟩ := h.detach (r := fun _ _ => False) c
  refine ⟨fun n => (f.detach c).Within n c, ⟨hd.linked, fun {n} hn => ?_, fun hp hw => .head hp hw⟩,
    ⟨hr.trans_le hd.size_le, fun hw => ?_⟩, .refl, fun {n p} hp hw => ?_⟩
  · rcases hn.cases_head with rfl | ⟨p, hp, -⟩
    · exact (h.lt_size_of_mem hc).trans_le hd.size_le
    · exact Forest.lt_size_of_parent? hp
  · exact h.not_within_of_child hc (hd.within (fun _ _ hno => hno.elim) hw)
  · rcases hw.cases_head with rfl | ⟨q, hq, hw⟩
    · rw [hfree] at hp
      cases hp
    · obtain rfl := Option.some.inj (hp.symm.trans hq)
      exact hw

/-- **Where a run starts**: the root and the blocks are there, and only what is set aside is
apart. -/
theorem apart_setAside (h : f.Linked) (hr : root < f.size) :
    ∃ apart, Apart apart (setAside f root) ∧ Present apart (setAside f root) root ∧
      (∀ c, annotation? f root = some c → apart c) ∧
      ∀ b ∈ (setAside f root).atRulesNamed mediaName root, Present apart (setAside f root) b := by
  rw [setAside]
  cases ha : annotation? f root with
  | none =>
    have hapart : Apart (fun _ => False) f := ⟨h, False.elim, fun _ hno => hno⟩
    refine ⟨_, hapart, ⟨hr, id⟩, fun c hc => absurd hc.symm (Option.some_ne_none c),
      fun b hb => ?_⟩
    exact hapart.present_of_descendants (fun _ hno => hno) f.size id b (List.mem_filter.1 hb).1
  | some comment =>
    obtain ⟨hlast, -⟩ := Option.filter_eq_some_iff.1 ha
    obtain ⟨apart, hapart, hroot, hcomment, hup⟩ :=
      apart_detach h hr (List.mem_of_getLast? hlast)
    refine ⟨apart, hapart, hroot, fun c hc => Option.some.inj hc ▸ hcomment, fun b hb => ?_⟩
    exact hapart.present_of_descendants hup _ hroot.not_apart b (List.mem_filter.1 hb).1

theorem gathered_start (h : Apart apart f) : Gathered apart .start f :=
  ⟨h, List.forall_mem_nil _, List.forall_mem_nil _⟩

theorem size_setAside (f : Forest) (root : NodeId) : (setAside f root).size = f.size := by
  rw [setAside]
  split
  · exact Forest.size_detach f _
  · rfl

/-- **When the blocks are taken**, the copies are apart as well. -/
theorem gathered_captured (h : f.Linked) (hr : root < f.size) (o : Options) :
    ∃ apart, Gathered apart (captured o f root).1.aggregator (captured o f root).1.forest ∧
      Present apart (captured o f root).1.forest root ∧
      (∀ c, annotation? f root = some c → apart c) ∧
      f.size ≤ (captured o f root).1.forest.size := by
  obtain ⟨apart, hapart, hroot, hcomment, hblocks⟩ := apart_setAside h hr
  obtain ⟨apart', hg, he⟩ := gathered_of_captureAll (o := o)
    (s := ⟨setAside f root, .start, .start, [], 0⟩) _ (gathered_start hapart) hroot hblocks
  rw [← size_setAside f root]
  refine ⟨apart', hg, he.present hroot, fun c hc => ?_, he.size_le⟩
  exact (he.iff c (hapart.lt_size (hcomment c hc))).2 (hcomment c hc)

/-- **When the blocks are put back**, nothing else is apart that was not. -/
theorem apart_finished (h : f.Linked) (hr : root < f.size) (o : Options) :
    (emit o (captured o f root).1.forest (captured o f root).1.aggregator.groups).Linked ∧
      ∃ apart, Apart apart (finished o root (captured o f root).1) ∧
        Present apart (finished o root (captured o f root).1) root ∧
        (∀ c, annotation? f root = some c → apart c) ∧
        f.size ≤ (finished o root (captured o f root).1).size := by
  obtain ⟨apart, hg, hroot, hcomment, hsize⟩ := gathered_captured h hr o
  obtain ⟨hemit, hle⟩ := apart_emit (o := o) _ hg.toApart
    fun g hm => ⟨hg.anchors g hm, hg.merged g hm⟩
  obtain ⟨hall, hle'⟩ := hemit.unwrapAll
    ((emit o (captured o f root).1.forest (captured o f root).1.aggregator.groups).collect
      o.isWrapper root)
  exact ⟨hemit.linked, apart, hall, (Extends.of_size_le (hle.trans hle')).present hroot, hcomment,
    hsize.trans (hle.trans hle')⟩

/-- **A run leaves a linked forest linked**, whether it ends or is given up. -/
theorem linked_transform (h : f.Linked) (hr : root < f.size) (o : Options) :
    (transform o f root).forest.Linked ∧ f.size ≤ (transform o f root).forest.size := by
  rw [(transform_eq o f root).2]
  split
  · obtain ⟨apart, hg, -, -, hsize⟩ := gathered_captured h hr o
    exact ⟨hg.linked, hsize⟩
  · obtain ⟨-, apart, ha, hroot, hcomment, hsize⟩ := apart_finished h hr o
    split
    · next comment hc =>
      have happended := ha.linked.append hroot.lt_size (ha.lt_size (hcomment comment hc))
        (ha.not_within hroot (hcomment comment hc))
      exact ⟨happended.linked, hsize.trans happended.size_le⟩
    · exact ⟨ha.linked, hsize⟩

end Grouping
end MediaGrouping
