/-
# Taking the blocks of a sheet

A run takes the blocks of a sheet one after the other, in the order of the sheet
as it was at the start. What holds in between is `Capturing`: the sheet stands in
the forest without the blocks that have left it, the groups keep those blocks,
merged, by anchor, and whatever blocks were inside them are strays. Each block
preserves this or ends the run (`Capturing.step`), and so does the run as a whole
(`Capturing.run`).
-/

import MediaGrouping.Proofs.Grouping.Strays

namespace MediaGrouping

open Grouping (mediaName mergeBlock merged)
open Planted (OnSheet)

/-- The numbers of the blocks that leave, among some blocks. -/
def gone (o : Options) (done : List Site) : NodeId → Bool :=
  ((done.filter (Site.leaves o)).map Site.id).contains

/-- **What holds between two blocks of a run**: some blocks are done, the others
still to do, `f₀` being the forest and `t` the sheet at the start. -/
structure Capturing (o : Options) (f₀ : Forest) (t : Planted) (done todo : List Site) (s : Capture)
    (table : Table) : Prop where
  split : t.inner.filter Site.isMedia = done ++ todo
  live : s.forest.Stands (t.prune (gone o done))
  size_le : f₀.size ≤ s.forest.size
  keeps : Aggregator.Keeps t.id s.resolver s.aggregator table
  holds : s.forest.Holds f₀.size table
  merged : ∀ n, OnSheet o t n → (table n).mapValues Planted.tree
    = Grouping.merged ((done.filter (Site.homed o n)).map (Site.parcel o))
  anchors : ∀ n, table n ≠ [] → OnSheet o t n ∨
    ∃ d, s.forest.Stands d ∧ d.id = n ∧ n ∈ t.ids ∧ n ≠ t.id
  strays : ∀ x ∈ todo, ∀ y ∈ done, y.leaves o = true → y.here.label ∈ x.above →
    IsStray o s.forest t x
  others : ∀ u, f₀.Stands u → u.id ≠ t.id → s.forest.Stands u

variable {o : Options} {f₀ : Forest} {t : Planted} {done todo : List Site} {s s' : Capture}
  {table : Table} {x y : Site} {n : NodeId}

theorem gone_iff : gone o done n = true ↔ ∃ y ∈ done, y.leaves o = true ∧ y.id = n := by
  rw [gone, List.contains_iff_mem, List.mem_map]
  simp only [List.mem_filter, and_assoc]

/-- A block that stays does not change what is gone. -/
theorem gone_append_of_stays (h : x.leaves o = false) : gone o (done ++ [x]) = gone o done := by
  rw [gone, List.filter_append, List.filter_cons_of_neg (by simp [h]), List.filter_nil,
    List.append_nil, gone]

/-- A block that leaves is gone. -/
theorem gone_append_of_leaves (h : x.leaves o = true) :
    gone o (done ++ [x]) = fun n => gone o done n || n == x.id := by
  funext n
  rw [Bool.eq_iff_iff, Bool.or_eq_true, gone_iff, gone_iff, beq_iff_eq]
  constructor
  · rintro ⟨y, hy, hl, rfl⟩
    rcases List.mem_append.1 hy with hy | hy
    · exact Or.inl ⟨y, hy, hl, rfl⟩
    · exact Or.inr (congrArg Site.id (List.mem_singleton.1 hy))
  · rintro (⟨y, hy, hl, rfl⟩ | rfl)
    · exact ⟨y, List.mem_append_left _ hy, hl, rfl⟩
    · exact ⟨x, List.mem_append_right _ List.mem_cons_self, h, rfl⟩

/-- **A block that is in no other that has left** is where it was in the sheet. -/
theorem mem_inner_prune_gone (hn : t.ids.Nodup)
    (hdone : ∀ y ∈ done, y ∈ t.inner ∧ y.isMedia = true) (hx : x ∈ t.inner)
    (hxm : x.isMedia = true) (hne : ∀ y ∈ done, y.id ≠ x.id)
    (hno : ∀ y ∈ done, y.leaves o = true → y.here.label ∉ x.above) :
    x ∈ (t.prune (gone o done)).inner := by
  have hsite : ∀ {y}, y ∈ done → y ∈ t.sites [] := fun hy =>
    Planted.mem_sites_of_mem_inner (hdone _ hy).1
  have hxs := Planted.mem_sites_of_mem_inner hx
  have htop : gone o done t.id = false := by
    rw [Bool.eq_false_iff]
    intro hg
    obtain ⟨y, hy, -, hi⟩ := gone_iff.1 hg
    exact Planted.top_ne_inner hn (hdone y hy).1 hi.symm
  have hself : gone o done x.id = false := by
    rw [Bool.eq_false_iff]
    intro hg
    obtain ⟨y, hy, -, hi⟩ := gone_iff.1 hg
    exact hne y hy hi
  have habove : ∀ l ∈ x.above, gone o done l.id = false := fun l hl => by
    rw [Bool.eq_false_iff]
    intro hg
    obtain ⟨y, hy, hyl, hi⟩ := gone_iff.1 hg
    obtain ⟨p, hp, rfl, -⟩ := (Planted.exists_site_above hxs hl).resolve_left List.not_mem_nil
    rw [← Planted.eq_of_id_eq hn (hsite hy) hp hi] at hl
    exact hno y hy hyl hl
  have hbelow : x.here.prune (gone o done) = x.here := Planted.prune_of_kept fun n hm => by
    rw [Bool.eq_false_iff]
    intro hg
    obtain ⟨y, hy, hyl, rfl⟩ := gone_iff.1 hg
    rw [← Planted.sitesAll_map_id (x.here.label :: x.above)] at hm
    obtain ⟨w, hw, hi⟩ := List.mem_map.1 hm
    have hws : w ∈ t.sites [] := Planted.sites_trans hxs
      (Planted.sites_eq x.above x.here ▸ List.mem_cons_of_mem _ hw)
    obtain ⟨path, hp⟩ := Planted.above_of_mem_sitesAll hw
    rw [Planted.eq_of_id_eq hn hws (hsite hy) hi] at hp
    exact Site.label_not_mem_above hyl hxm (hp ▸ by simp)
  rw [Planted.inner_prune _ htop, List.mem_map]
  refine ⟨x, List.mem_filter.2 ⟨hx, ?_⟩, by rw [Site.prune, hbelow]⟩
  rw [Site.spared, hself, Bool.and_eq_true, List.all_eq_true]
  exact ⟨rfl, fun l hl => by rw [habove l hl]; rfl⟩

/-- **A block that leaves is merged** into the copies of its anchor, and into no others. -/
theorem merged_append_of_leaves {a : Label} {m : Registry Planted} (hl : x.leaves o = true)
    (ha : Scope.anchor? o mediaName x.above = some a)
    (hm : m.mapValues Planted.tree = mergeBlock ((table a.id).mapValues Planted.tree) (x.parcel o))
    (h : (table n).mapValues Planted.tree
      = Grouping.merged ((done.filter (Site.homed o n)).map (Site.parcel o))) :
    (Function.update table a.id m n).mapValues Planted.tree
      = Grouping.merged (((done ++ [x]).filter (Site.homed o n)).map (Site.parcel o)) := by
  obtain ⟨hxm, a', ha', hfree⟩ := Site.leaves_iff.1 hl
  obtain rfl := Option.some.inj (ha.symm.trans ha')
  rw [List.filter_append]
  by_cases hna : n = a.id
  · subst hna
    have hh : x.homed o a.id = true := Planted.homed_iff.2 ⟨hxm, a, ha, rfl, hfree⟩
    rw [Function.update_self, hm, h, List.filter_cons_of_pos hh,
      List.filter_nil, List.map_append, Grouping.merged, Grouping.merged, List.foldl_append]
    rfl
  · have hh : x.homed o n ≠ true := fun hh => by
      obtain ⟨-, a', ha', han, -⟩ := Planted.homed_iff.1 hh
      exact hna (han ▸ congrArg Label.id (Option.some.inj (ha'.symm.trans ha)))
    rw [Function.update_of_ne hna, h, List.filter_cons_of_neg hh, List.filter_nil,
      List.append_nil]

/-- A block that stays is merged into no copies. -/
theorem filter_homed_append_of_stays (h : x.leaves o = false) :
    (done ++ [x]).filter (Site.homed o n) = done.filter (Site.homed o n) := by
  have hh : x.homed o n ≠ true := fun hh =>
    Bool.false_ne_true (h.symm.trans (Site.leaves_of_homed hh))
  rw [List.filter_append, List.filter_cons_of_neg hh, List.filter_nil, List.append_nil]

/-- **The blocks in a block that is taken** become strays. -/
theorem Capture.Takes.isStray {root first : NodeId} {u b : Planted} {m : Registry Planted}
    (ht : Takes o root first table n u x s s' m b) (hn : t.ids.Nodup) (hs : t.IsSheet)
    (hx : x ∈ t.inner) (hxm : x.isMedia = true) (hy : y ∈ t.inner) (hym : y.isMedia = true)
    (hxy : x.here.label ∈ y.above) : IsStray o s'.forest t y := by
  have hxs := Planted.mem_sites_of_mem_inner hx
  obtain ⟨p, hp, hpl, hpy⟩ := (Planted.exists_site_above (Planted.mem_sites_of_mem_inner hy)
    hxy).resolve_left List.not_mem_nil
  obtain rfl := Planted.eq_of_id_eq hn hp hxs (congrArg Label.id hpl)
  have htorn : Torn o t b := Torn.of_branch ht.branch hxm (Planted.id_mem_ids hxs)
    (Planted.top_ne_inner hn hx).symm
    (fun w hw => by
      refine hs.rootless w (Planted.mem_inner_iff.2 ⟨Planted.sites_trans hxs hw, ?_⟩)
      obtain ⟨path, hpath⟩ := Planted.above_of_mem_sites hw
      rw [hpath]
      exact List.append_ne_nil_of_right_ne_nil _ (Planted.mem_inner_iff.1 hx).2)
    fun hmild => hmild.media p hx hxm
  exact IsStray.of_branch ht.branch ht.apart htorn hxm (fun hmild => hmild.media p hx hxm) hpy
    hym rfl fun _ => rfl

/-- A stray outside the tree that a block is taken from remains one. -/
theorem IsStray.takes {root first : NodeId} {u b : Planted} {z : Site} {m : Registry Planted}
    (h : IsStray o s.forest t x) (ht : Capture.Takes o root first table n u z s s' m b)
    (hu : u.id = t.id) (hfresh : ∀ k ∈ t.ids, k ∉ (table n).tops) : IsStray o s'.forest t x := by
  refine h.spared ht.spares fun d hd hdm => ?_
  rcases List.mem_cons.1 hdm with hdm | hdm
  · exact hd.id_ne (hdm.trans hu)
  · exact hfresh _ hd.id_mem hdm

namespace Capturing

/-- **A run starts** with the whole sheet, no group and all blocks to do. -/
theorem start (h₀ : f₀.Stands t) :
    Capturing o f₀ t [] (t.inner.filter Site.isMedia) ⟨f₀, .start, .start, [], 0⟩ fun _ => [] where
  split := rfl
  live := by
    have hp : t.prune (gone o []) = t := Planted.prune_of_kept fun _ _ => rfl
    rwa [hp]
  size_le := le_rfl
  keeps := Aggregator.Keeps.start t.id
  holds := Forest.Holds.empty f₀ f₀.size
  merged := fun _ _ => rfl
  anchors := fun _ h => absurd rfl h
  strays := fun _ _ _ h => absurd h List.not_mem_nil
  others := fun _ h _ => h

section

variable (h : Capturing o f₀ t done (x :: todo) s table)

include h

theorem mem_inner (hy : y ∈ done ++ x :: todo) : y ∈ t.inner ∧ y.isMedia = true :=
  List.mem_filter.1 (h.split ▸ hy)

theorem self_mem : x ∈ t.inner ∧ x.isMedia = true :=
  h.mem_inner (List.mem_append_right _ List.mem_cons_self)

theorem mem_done (hy : y ∈ done) : y ∈ t.inner ∧ y.isMedia = true :=
  h.mem_inner (List.mem_append_left _ hy)

/-- No block is met twice. -/
theorem id_ne (hn : t.ids.Nodup) (hy : y ∈ done ++ todo) : y.id ≠ x.id := by
  have hnd : ((done ++ x :: todo).map Site.id).Nodup := by
    rw [← h.split]
    exact (Planted.nodup_inner hn).sublist (List.filter_sublist.map _)
  rw [List.map_append, List.map_cons, List.nodup_middle, List.nodup_cons, ← List.map_append] at hnd
  exact fun he => hnd.1 (he ▸ List.mem_map_of_mem hy)

/-- **A block that is in no other that has left** is where it was in the sheet. -/
theorem mem_live (hn : t.ids.Nodup)
    (hno : ∀ y ∈ done, y.leaves o = true → y.here.label ∉ x.above) :
    x ∈ (t.prune (gone o done)).inner := by
  obtain ⟨hx, hxm⟩ := h.self_mem
  exact mem_inner_prune_gone hn (fun y hy => h.mem_done hy) hx hxm
    (fun y hy => h.id_ne hn (List.mem_append_left _ hy)) hno

/-- The anchors on a sheet stay on it. -/
theorem onSheet_mem (hs : t.IsSheet) (hn : t.ids.Nodup) (hon : OnSheet o t n) :
    n ∈ (t.prune (gone o done)).ids := by
  have hgone : ∀ {c : Planted} {above : List Label}, ⟨above, c⟩ ∈ t.sites [] →
      c.content.isAtRuleNamed mediaName = false → gone o done c.id = false := by
    intro c above hc hm
    rw [Bool.eq_false_iff]
    intro hg
    obtain ⟨y, hy, -, hi⟩ := gone_iff.1 hg
    obtain ⟨hyi, hym⟩ := h.mem_done hy
    rw [Planted.eq_of_id_eq hn (Planted.mem_sites_of_mem_inner hyi) hc hi] at hym
    exact Bool.false_ne_true (hm.symm.trans hym)
  have htop : gone o done t.id = false := hgone (t.self_mem_sites []) (by
    rw [Bool.eq_false_iff]
    intro hm
    exact absurd hs.root (Bool.eq_false_iff.1 (Scope.isRoot_of_named hm)))
  rcases hon with rfl | ⟨c, hc, rfl, -, hm⟩
  · exact Planted.id_prune (gone o done) t ▸ Planted.self_mem_ids _
  · have hcs := Planted.child_mem_sites (t.self_mem_sites []) hc
    have hid := Planted.id_mem_ids ((Planted.mem_sites_prune (gone o done) htop).2
      ⟨_, hcs, hgone hcs hm, List.forall_mem_singleton.2 htop, rfl⟩)
    rwa [Site.id_prune] at hid

/-- **A block that stays where it is.** -/
theorem skip (hx : x.leaves o = false) (hf : s'.forest = s.forest)
    (hr : s'.resolver = s.resolver) (ha : s'.aggregator = s.aggregator) :
    Capturing o f₀ t (done ++ [x]) todo s' table where
  split := by rw [h.split, List.append_assoc, List.singleton_append]
  live := by rw [hf, gone_append_of_stays hx]; exact h.live
  size_le := hf ▸ h.size_le
  keeps := hr ▸ ha ▸ h.keeps
  holds := hf ▸ h.holds
  merged := fun n hon => by
    rw [filter_homed_append_of_stays hx]
    exact h.merged n hon
  anchors := hf ▸ h.anchors
  strays := fun y hy z hz hzl hm => by
    rcases List.mem_append.1 hz with hz | hz
    · exact hf ▸ h.strays y (List.mem_cons_of_mem _ hy) z hz hzl hm
    · rw [List.mem_singleton.1 hz, hx] at hzl
      cases hzl
  others := hf ▸ h.others

/-- **A block that is taken** out of the sheet, or out of what has left it. -/
theorem take (h₀ : f₀.Stands t) {u b : Planted} {z : Site} {m : Registry Planted}
    (ht : Capture.Takes o t.id f₀.size table n u z s s' m b)
    (hi : u.id ∈ t.ids) (ha : OnSheet o t n ∨ (u.id = n ∧ n ≠ t.id))
    (hlive : s'.forest.Stands (t.prune (gone o (done ++ [x]))))
    (hmerged : ∀ k, OnSheet o t k → (Function.update table n m k).mapValues Planted.tree
      = Grouping.merged (((done ++ [x]).filter (Site.homed o k)).map (Site.parcel o)))
    (hstrays : ∀ y ∈ todo, ∀ z ∈ done ++ [x], z.leaves o = true → z.here.label ∈ y.above →
      IsStray o s'.forest t y) :
    Capturing o f₀ t (done ++ [x]) todo s' (Function.update table n m) where
  split := by rw [h.split, List.append_assoc, List.singleton_append]
  live := hlive
  size_le := h.size_le.trans ht.spares.size_le
  keeps := ht.keeps
  holds := ht.holds
  merged := hmerged
  anchors := fun k hk => by
    by_cases hkn : k = n
    · subst hkn
      refine ha.imp_right fun ⟨hun, hne⟩ => ?_
      exact ⟨_, ht.pruned, (Planted.id_prune _ u).trans hun, hun ▸ hi, hne⟩
    · rw [Function.update_of_ne hkn] at hk
      refine (h.anchors k hk).imp_right fun ⟨d, hd, hdk, hkt, hne⟩ => ?_
      by_cases hdu : d.id = u.id
      · exact ⟨_, ht.pruned, (Planted.id_prune _ u).trans (hdu.symm.trans hdk), hkt, hne⟩
      · refine ⟨d, ht.spares.stands d hd fun hm => ?_, hdk, hkt, hne⟩
        rcases List.mem_cons.1 hm with hm | hm
        · exact hdu hm
        · exact Nat.not_lt.2 (h.holds.fresh n _ hm) (hdk ▸ h₀.lt_size hkt)
  strays := hstrays
  others := fun v hv hne => by
    refine ht.spares.stands v (h.others v hv hne) fun hm => ?_
    rcases List.mem_cons.1 hm with hm | hm
    · exact hne (h₀.id_eq hv (hm ▸ hi) v.self_mem_ids).symm
    · exact Nat.not_lt.2 (h.holds.fresh n _ hm) (hv.lt_size v.self_mem_ids)

/-- **A block that leaves** is taken out of the sheet. -/
theorem take_live (h₀ : f₀.Stands t) (hs : t.IsSheet) {a : Label} {b : Planted}
    {m : Registry Planted} (hl : x.leaves o = true)
    (ha : Scope.anchor? o mediaName x.above = some a)
    (ht : Capture.Takes o t.id f₀.size table a.id (t.prune (gone o done)) x s s' m b) :
    Capturing o f₀ t (done ++ [x]) todo s' (Function.update table a.id m) := by
  obtain ⟨hx, hxm⟩ := h.self_mem
  have hfresh : ∀ k ∈ t.ids, k ∉ (table a.id).tops := fun k hk hm =>
    Nat.not_lt.2 (h.holds.fresh _ _ hm) (h₀.lt_size hk)
  refine h.take h₀ ht (Planted.id_prune _ t ▸ t.self_mem_ids)
    (Or.inl (hs.onSheet_of_leaves hx hl ha)) ?_
    (fun k hk => merged_append_of_leaves hl ha ht.merged (h.merged k hk)) fun y hy z hz hzl hm => ?_
  · rw [gone_append_of_leaves hl, ← Planted.prune_prune]
    exact ht.pruned
  · rcases List.mem_append.1 hz with hz | hz
    · exact (h.strays y (List.mem_cons_of_mem _ hy) z hz hzl hm).takes ht (Planted.id_prune _ t)
        hfresh
    · obtain rfl := List.mem_singleton.1 hz
      obtain ⟨hyi, hym⟩ := h.mem_inner (List.mem_append_right _ (List.mem_cons_of_mem _ hy))
      exact ht.isStray h₀.nodup hs hx hxm hyi hym hm

/-- **A stray whose anchor is the torn tree's top** is taken out of that tree. -/
theorem take_stray (h₀ : f₀.Stands t) (hs : t.IsSheet) {d b : Planted} {z : Site}
    {m : Registry Planted} (hx : x.leaves o = false) (hd : s.forest.Stands d) (hdt : Torn o t d)
    (hz : z ∈ d.inner) (hzi : z.id = x.id) (hzm : z.isMedia = true) (hnm : ¬Mild o t)
    (ht : Capture.Takes o t.id f₀.size table d.id d z s s' m b) :
    Capturing o f₀ t (done ++ [x]) todo s' (Function.update table d.id m) := by
  have hfresh : ∀ k ∈ t.ids, k ∉ (table d.id).tops := fun k hk hm =>
    Nat.not_lt.2 (h.holds.fresh _ _ hm) (h₀.lt_size hk)
  refine h.take h₀ ht hdt.id_mem (Or.inr ⟨rfl, hdt.id_ne⟩) ?_ (fun k hk => ?_)
    fun y hy z' hz' hzl hm => ?_
  · rw [gone_append_of_stays hx]
    refine ht.spares.stands _ h.live fun hm => ?_
    rw [Planted.id_prune] at hm
    rcases List.mem_cons.1 hm with hm | hm
    · exact hdt.id_ne hm.symm
    · exact hfresh _ t.self_mem_ids hm
  · have hkd : k ≠ d.id := fun he => hdt.id_ne (by
      have := h.live.id_eq hd (h.onSheet_mem hs h₀.nodup hk) (he ▸ d.self_mem_ids)
      rw [← this, Planted.id_prune])
    rw [Function.update_of_ne hkd, h.merged k hk, filter_homed_append_of_stays hx]
  · rcases List.mem_append.1 hz' with hz' | hz'
    · have hyz : y.id ≠ z.id := fun he =>
        h.id_ne h₀.nodup (List.mem_append_right _ hy) (he.trans hzi)
      have hzt : z.id ∈ t.ids :=
        hzi ▸ Planted.id_mem_ids (Planted.mem_sites_of_mem_inner h.self_mem.1)
      have hzn : z.id ≠ t.id := hzi ▸ (Planted.top_ne_inner h₀.nodup h.self_mem.1).symm
      exact (h.strays y (List.mem_cons_of_mem _ hy) z' hz' hzl hm).taken hnm hd hz hzm hzt hzn hyz
        hfresh ht
    · rw [List.mem_singleton.1 hz', hx] at hzl
      cases hzl

/-- A block in no other that has left has no block for an anchor. -/
theorem leaves_of_anchor (hn : t.ids.Nodup) (hs : t.IsSheet) {a : Label}
    (hno : ∀ y ∈ done, y.leaves o = true → y.here.label ∉ x.above)
    (ha : Scope.anchor? o mediaName x.above = some a) : x.leaves o = true := by
  obtain ⟨hx, hxm⟩ := h.self_mem
  refine Site.leaves_iff.2 ⟨hxm, a, ha, ?_⟩
  rw [Bool.eq_false_iff]
  intro hm
  rcases hs.anchor_cases hx ha with ⟨-, rfl⟩ | ⟨hsc, -, c, hc, rfl⟩
  · exact absurd hs.root (Bool.eq_false_iff.1 (Scope.isRoot_of_named hm))
  · -- the anchor would be a block right below the root, and so have left before
    have hp := Planted.child_mem_sites (t.self_mem_sites []) hc
    have hpi : ⟨[t.label], c⟩ ∈ t.inner := Planted.mem_inner_iff.2 ⟨hp, List.cons_ne_nil _ _⟩
    have hroot : Planted.Anchors o t.label [] := hs.anchors_root
    have hpl : Site.leaves o ⟨[t.label], c⟩ = true :=
      Site.leaves_iff.2 ⟨hm, t.label, hroot.anchor?_child, hroot.free⟩
    have hca : c.label ∈ x.above := Scope.mem_of_anchor? ha
    have horder : (done ++ x :: todo).Pairwise fun x y => y.id ∉ x.above.map Label.id := by
      rw [← h.split]
      refine (Planted.sitesAll_pairwise [t.label] t.children ?_).filter _
      rw [Planted.ids_eq] at hn
      exact hn
    have hpm : Site.mk [t.label] c ∈ done ++ x :: todo :=
      h.split ▸ List.mem_filter.2 ⟨hpi, hm⟩
    rcases List.mem_append.1 hpm with hpd | hpt
    · exact hno _ hpd hpl hca
    · rcases List.mem_cons.1 hpt with hpx | hpt
      · rw [← hpx, Scope.scopes] at hsc
        have hlen := congrArg List.length hsc
        split_ifs at hlen
        simp at hlen
      · refine (List.pairwise_cons.1 (List.pairwise_append.1 horder).2.1).1 _ hpt ?_
        exact List.mem_map_of_mem (f := Label.id) hca

/-- **One block of a run**, in no other that has left. -/
theorem step_live (h₀ : f₀.Stands t) (hs : t.IsSheet)
    (hno : ∀ y ∈ done, y.leaves o = true → y.here.label ∉ x.above) :
    match Grouping.capture o t.id s x.id with
    | .error (e, s') =>
      s' = s ∧ ∃ w, Scope.offence? o mediaName x.above = some w ∧ e = .ofLabel w
    | .ok s' => (∃ table', Capturing o f₀ t (done ++ [x]) todo s' table') ∧
        Scope.offence? o mediaName x.above = none := by
  obtain ⟨hx, -⟩ := h.self_mem
  have hlive := h.mem_live h₀.nodup hno
  have hlives := Planted.mem_sites_of_mem_inner hlive
  have hends := hs.ends hx
  cases ho : Scope.offence? o mediaName x.above with
  | some w =>
    rw [Capture.capture_of_offence h.live hlives hends ho]
    exact ⟨rfl, w, rfl, rfl⟩
  | none =>
    cases ha : Scope.anchor? o mediaName x.above with
    | some a =>
      have hl := h.leaves_of_anchor h₀.nodup hs hno ha
      have hroot : a.content.isRoot = true ↔ a.id = t.id := hs.isRoot_anchor h₀.nodup hx ha
      obtain ⟨s', m, b, hcap, ht⟩ := Capture.capture_of_anchor h.live hlive hends ho ha hroot
        h.keeps h.holds (by rw [Planted.id_prune]; exact h₀.lt_size t.self_mem_ids) h.size_le
      rw [hcap]
      exact ⟨⟨_, h.take_live h₀ hs hl ha ht⟩, rfl⟩
    | none =>
      have hl : x.leaves o = false := by
        rw [Bool.eq_false_iff]
        intro hl
        obtain ⟨-, a, ha', -⟩ := Site.leaves_iff.1 hl
        rw [ha] at ha'
        cases ha'
      obtain ⟨s', hcap, hf, hr, hag⟩ :=
        Capture.capture_of_none t.id h.live hlives hends ho ha
      rw [hcap]
      exact ⟨⟨_, h.skip hl hf hr hag⟩, rfl⟩

/-- **One block of a run**, in another that has left. -/
theorem step_stray (h₀ : f₀.Stands t) (hs : t.IsSheet) (hy : y ∈ done) (hyl : y.leaves o = true)
    (hyx : y.here.label ∈ x.above) :
    match Grouping.capture o t.id s x.id with
    | .error (e, s') => s' = s ∧
        (Mild o t → ∃ w, Scope.offence? o mediaName x.above = some w ∧ e = .ofLabel w)
    | .ok s' => (∃ table', Capturing o f₀ t (done ++ [x]) todo s' table') ∧
        (Mild o t → Scope.offence? o mediaName x.above = none) := by
  have hl : x.leaves o = false := by
    rw [Bool.eq_false_iff]
    exact fun hl => Site.label_not_mem_above hl (h.mem_done hy).2 hyx
  obtain ⟨d, z, hd, hdt, hz, hzi, hzm, ho⟩ := h.strays x List.mem_cons_self y hy hyl hyx
  have hzs := Planted.mem_sites_of_mem_inner hz
  obtain ⟨path, hp, hrootless⟩ := hdt.exists_above hz
  have hends : Scope.Ends mediaName z.above := ⟨path, d.label, hp, Or.inr hdt.media, hrootless⟩
  rw [← hzi]
  cases hoz : Scope.offence? o mediaName z.above with
  | some w =>
    rw [Capture.capture_of_offence hd hzs hends hoz]
    exact ⟨rfl, fun hm => ⟨w, (ho hm).symm.trans hoz, rfl⟩⟩
  | none =>
    cases ha : Scope.anchor? o mediaName z.above with
    | some a =>
      obtain ⟨rfl, hw⟩ := Scope.anchor?_of_named hrootless hdt.media (hp ▸ ha)
      have hnm : ¬Mild o t := fun hm => Bool.false_ne_true ((hdt.mild hm).symm.trans hw)
      have hroot : d.label.content.isRoot = true ↔ d.label.id = t.id :=
        iff_of_false (Bool.eq_false_iff.1 (Scope.isRoot_of_named hdt.media)) hdt.id_ne
      obtain ⟨s', m, b, hcap, ht⟩ := Capture.capture_of_anchor hd hz hends hoz ha hroot
        h.keeps h.holds (h₀.lt_size hdt.id_mem) h.size_le
      rw [hcap]
      exact ⟨⟨_, h.take_stray h₀ hs hl hd hdt hz hzi hzm hnm ht⟩, fun hm => (ho hm).symm.trans hoz⟩
    | none =>
      obtain ⟨s', hcap, hf, hr, hag⟩ :=
        Capture.capture_of_none t.id hd hzs hends hoz ha
      rw [hcap]
      exact ⟨⟨_, h.skip hl hf hr hag⟩, fun hm => (ho hm).symm.trans hoz⟩

/-- **One block of a run** is done, or ends it. -/
theorem step (h₀ : f₀.Stands t) (hs : t.IsSheet) :
    match Grouping.capture o t.id s x.id with
    | .error (e, s') => s' = s ∧
        (Mild o t → ∃ w, Scope.offence? o mediaName x.above = some w ∧ e = .ofLabel w)
    | .ok s' => (∃ table', Capturing o f₀ t (done ++ [x]) todo s' table') ∧
        (Mild o t → Scope.offence? o mediaName x.above = none) := by
  by_cases hstray : ∃ y ∈ done, y.leaves o = true ∧ y.here.label ∈ x.above
  · obtain ⟨y, hy, hyl, hyx⟩ := hstray
    exact h.step_stray h₀ hs hy hyl hyx
  · have hl := h.step_live h₀ hs fun y hy hyl hyx => hstray ⟨y, hy, hyl, hyx⟩
    split at hl
    · exact ⟨hl.1, fun _ => hl.2⟩
    · exact ⟨hl.1, fun _ => hl.2⟩

end

/-- **The blocks of a run** are done up to the first that ends it. -/
theorem run (h₀ : f₀.Stands t) (hs : t.IsSheet) :
    ∀ {todo done : List Site} {s : Capture} {table : Table},
      Capturing o f₀ t done todo s table →
      ∃ done' todo' table', todo = done' ++ todo' ∧
        Capturing o f₀ t (done ++ done') todo'
          (Grouping.captureAll o t.id s (todo.map Site.id)).1 table' ∧
        (Mild o t → ∀ x ∈ done', Scope.offence? o mediaName x.above = none) ∧
        match (Grouping.captureAll o t.id s (todo.map Site.id)).2 with
        | none => todo' = []
        | some e => ∃ x rest, todo' = x :: rest ∧
            (Mild o t → ∃ w, Scope.offence? o mediaName x.above = some w ∧ e = .ofLabel w) := by
  intro todo
  induction todo with
  | nil =>
    intro done s table h
    exact ⟨[], [], table, rfl, by rwa [List.append_nil], fun _ _ hx => absurd hx List.not_mem_nil,
      rfl⟩
  | cons x todo ih =>
    intro done s table h
    have hstep := h.step h₀ hs
    rw [List.map_cons, Grouping.captureAll]
    cases hc : Grouping.capture o t.id s x.id with
    | error ended =>
      rw [hc] at hstep
      obtain ⟨rfl, hoffence⟩ := hstep
      exact ⟨[], x :: todo, table, rfl, by rwa [List.append_nil],
        fun _ _ hx => absurd hx List.not_mem_nil, x, todo, rfl, hoffence⟩
    | ok s' =>
      rw [hc] at hstep
      obtain ⟨⟨table', h'⟩, hno⟩ := hstep
      obtain ⟨done', todo', table'', rfl, hrun, hnone, hend⟩ := ih h'
      refine ⟨x :: done', todo', table'', rfl, ?_, fun hm => ?_, hend⟩
      · rwa [List.append_assoc, List.singleton_append] at hrun
      · exact List.forall_mem_cons.2 ⟨hno hm, hnone hm⟩

end Capturing
end MediaGrouping
