/-
# The counts of a run

The summary of a run that ends well accounts for the blocks and the wrappers of the
sheet. While blocks are taken, the two counters follow what each block is judged to be
(`Grouping.capture_counts`), and that is told by the untouched sheet (`Surveying.step`).
The merged blocks put back are then as many as there are pairs of a scope and a query
list among the blocks with a scope (`Surveying.card_placed`), and counting nodes before
and after does the rest (`Grouping.transform_accounts`).
-/

import MediaGrouping.Proofs.Grouping.AnyOrder
import MediaGrouping.Proofs.Grouping.Counting

namespace MediaGrouping

open Grouping (judged mediaName merged sorted)
open MediaGrouping.Tree (tally)

/-- Whether a block is taken in. -/
def Verdict.taken : Verdict → Bool
  | .root | .wrapper _ => true
  | .tooDeep | .nested _ => false

namespace Grouping

/-- The blocks below a root that have a scope: the scope of each, and its query list. -/
def placed (o : Options) (f : Forest) (root : NodeId) : List (Verdict × Text) :=
  ((f.atRulesNamed mediaName root).map fun block =>
    (verdict o .start f block, f.queryList block)).filter (·.1.taken)

variable {o : Options} {s s' : Capture} {root block : NodeId}

/-- **One block is counted** by what it is judged to be, and reported in no summary. -/
theorem capture_counts (h : capture o root s block = .ok s') :
    s'.aggregator.captured
        = s.aggregator.captured + (verdict o s.resolver s.forest block).taken.toNat ∧
      s'.leftInPlace = s.leftInPlace + (!(verdict o s.resolver s.forest block).taken).toNat ∧
      ∀ e ∈ s'.events, e ∈ s.events ∨ ∃ text, e = .leftInPlace text := by
  rw [capture] at h
  rw [verdict]
  cases hr : s.resolver.resolve o mediaName s.forest block with
  | error e =>
    rw [hr] at h
    cases h
  | ok result =>
    obtain ⟨resolution, r, f⟩ := result
    rw [hr] at h
    cases resolution with
    | rootGroup | wrapperGroup =>
      cases h
      exact ⟨rfl, rfl, fun e he => Or.inl he⟩
    | tooDeep =>
      cases h
      refine ⟨rfl, rfl, fun e he => ?_⟩
      rcases List.mem_append.1 he with he | he
      · exact Or.inl he
      · exact Or.inr ⟨_, List.mem_singleton.1 he⟩

end Grouping

variable {o : Options} {f f₀ : Forest} {t : Planted} {x : Site} {done todo : List Site}
  {s s' : Capture} {table : Table} {n : NodeId} {all : List NodeId}

/-- **The blocks with a scope** are those that leave. -/
theorem Mild.taken_judged (hm : Mild o t) (hs : t.IsSheet) (hx : x ∈ t.inner)
    (hxm : x.isMedia = true) : (judged o x.above).taken = x.leaves o := by
  have hstays : Scope.anchor? o mediaName x.above = none → x.leaves o = false := fun ha => by
    rw [Site.leaves, ha, Option.any_none, Bool.and_false]
  rw [judged]
  cases hw : Scope.offence? o mediaName x.above with
  | some w => exact (hstays (Scope.anchor?_of_offence hw)).symm
  | none =>
    cases ha : Scope.anchor? o mediaName x.above with
    | none => exact (hstays ha).symm
    | some a =>
      rw [hm.leaves_of_anchor hs hx hxm ha]
      simp only
      split_ifs <;> rfl

/-- The scope of a node of a sheet: the sheet itself at the top, and a wrapper elsewhere. -/
def Planted.scope (t : Planted) (n : NodeId) : Verdict := if n = t.id then .root else .wrapper n

theorem Planted.scope_injective (t : Planted) : Function.Injective t.scope := by
  intro n m he
  simp only [scope] at he
  split_ifs at he with h₁ h₂ h₂
  · exact h₁.trans h₂.symm
  · exact Verdict.wrapper.inj he

/-- **What a block is judged to be** names the node that it leaves for. -/
theorem judged_of_homed (hs : t.IsSheet) (hn : t.ids.Nodup) (hx : x ∈ t.inner)
    (hh : x.homed o n = true) : judged o x.above = t.scope n := by
  obtain ⟨-, a, ha, rfl, -⟩ := Planted.homed_iff.1 hh
  have hno : Scope.offence? o mediaName x.above = none := by
    rw [Option.eq_none_iff_forall_ne_some]
    intro w hw
    rw [Scope.anchor?_of_offence hw] at ha
    cases ha
  have hroot := hs.isRoot_anchor hn hx ha
  rw [judged, hno, ha, Planted.scope]
  by_cases he : a.id = t.id
  · rw [if_pos he]
    exact if_pos (hroot.2 he)
  · rw [if_neg he]
    exact if_neg fun h => he (hroot.1 h)

/-- **The counters of a run** after some blocks. -/
structure Counted (o : Options) (done : List Site) (s : Capture) : Prop where
  captured : s.aggregator.captured = (done.filter (Site.leaves o)).length
  leftInPlace : s.leftInPlace = (done.filter (!Site.leaves o ·)).length
  silent : ∀ m, .grouped m ∉ s.events

theorem Counted.step (h : Counted o done s) (hc : Grouping.capture o n s x.id = .ok s')
    (hv : (Grouping.verdict o s.resolver s.forest x.id).taken = x.leaves o) :
    Counted o (done ++ [x]) s' := by
  obtain ⟨hcaptured, hleft, hevents⟩ := Grouping.capture_counts hc
  rw [hv] at hcaptured hleft
  constructor
  · rw [hcaptured, h.captured, List.filter_append, List.length_append]
    cases hl : x.leaves o <;> simp [hl]
  · rw [hleft, h.leftInPlace, List.filter_append, List.length_append]
    cases hl : x.leaves o <;> simp [hl]
  · intro m hm
    rcases hevents _ hm with hm | ⟨text, hm⟩
    · exact h.silent m hm
    · cases hm

namespace Surveying

/-- **The blocks of a run that ends well** are all done, and counted. -/
theorem run (h₀ : f₀.Stands t) (hs : t.IsSheet) (hm : Mild o t) :
    ∀ {todo done : List Site} {s : Capture} {table : Table},
      Surveying o f₀ t done s table → Counted o done s →
      (∀ x ∈ todo, x ∈ t.inner ∧ x.isMedia = true) → ((done ++ todo).map Site.id).Nodup →
      (Grouping.captureAll o t.id s (todo.map Site.id)).2 = none →
      ∃ table', Surveying o f₀ t (done ++ todo)
          (Grouping.captureAll o t.id s (todo.map Site.id)).1 table' ∧
        Counted o (done ++ todo) (Grouping.captureAll o t.id s (todo.map Site.id)).1 := by
  intro todo
  induction todo with
  | nil =>
    intro done s table h hc _ _ _
    rw [List.append_nil]
    exact ⟨table, h, hc⟩
  | cons x todo ih =>
    intro done s table h hc hmedia hnodup hok
    obtain ⟨⟨hx, hxm⟩, htodo⟩ := List.forall_mem_cons.1 hmedia
    have hne : ∀ y ∈ done, y.id ≠ x.id := fun y hy he => by
      rw [List.map_append, List.nodup_append'] at hnodup
      exact hnodup.2.2 (List.mem_map_of_mem hy) (he ▸ List.mem_cons_self)
    obtain ⟨hverdict, hstep⟩ := h.step h₀ hs hm hx hxm hne
    rw [List.map_cons, Grouping.captureAll] at hok ⊢
    cases hcap : Grouping.capture o t.id s x.id with
    | error e =>
      rw [hcap] at hok
      cases hok
    | ok s' =>
      rw [hcap] at hok hstep
      obtain ⟨table', h'⟩ := hstep
      have hc' := hc.step hcap (by rw [hverdict, hm.taken_judged hs hx hxm])
      rw [List.append_cons] at hnodup ⊢
      exact ih h' hc' htodo hnodup hok

variable (h : Surveying o f₀ t done s table)

include h

/-- The query lists that are kept for an anchor are those of its blocks. -/
theorem mem_keys_iff (n : NodeId) {k : Text} :
    k ∈ Registry.keys (table n) ↔ ∃ x ∈ done, x.homed o n = true ∧ x.here.tree.query = k := by
  rw [← Registry.keys_mapValues Planted.tree, h.merged n, Grouping.mem_keys_merged]
  constructor
  · rintro ⟨u, hu, rfl⟩
    obtain ⟨x, hx, rfl⟩ := List.mem_map.1 hu
    obtain ⟨hx, hh⟩ := List.mem_filter.1 hx
    exact ⟨x, hx, hh, (x.query_parcel o).symm⟩
  · rintro ⟨x, hx, hh, rfl⟩
    exact ⟨_, List.mem_map_of_mem (List.mem_filter.2 ⟨hx, hh⟩), x.query_parcel o⟩

/-- Copies are kept for the anchors of blocks that have left. -/
theorem ne_nil_iff (n : NodeId) : table n ≠ [] ↔ ∃ x ∈ done, x.homed o n = true := by
  constructor
  · intro hne
    obtain ⟨e, he⟩ := List.exists_mem_of_ne_nil _ hne
    obtain ⟨x, hx, hh, -⟩ := (h.mem_keys_iff n).1 (List.mem_map_of_mem he)
    exact ⟨x, hx, hh⟩
  · rintro ⟨x, hx, hh⟩ he
    have hk := (h.mem_keys_iff n).2 ⟨x, hx, hh, rfl⟩
    rw [he] at hk
    exact List.not_mem_nil hk

/-- In the order of the sheet, a survey is a run. -/
theorem capturing (hs : t.IsSheet) (hsplit : t.inner.filter Site.isMedia = done ++ todo) :
    Capturing o f₀ t done todo s table where
  split := hsplit
  live := h.live
  size_le := h.size_le
  keeps := h.keeps
  holds := h.holds
  merged := fun n _ => h.merged n
  anchors := fun n hne => by
    obtain ⟨x, hx, hh⟩ := (h.ne_nil_iff n).1 hne
    obtain ⟨-, a, ha, rfl, -⟩ := Planted.homed_iff.1 hh
    exact Or.inl (hs.onSheet_of_leaves (h.media x hx).1 (Site.leaves_of_homed hh) ha)
  strays := fun x hx y hy hyl hyx => by
    have hmem : x ∈ t.inner.filter Site.isMedia := hsplit ▸ List.mem_append_right _ hx
    obtain ⟨hx, hxm⟩ := List.mem_filter.1 hmem
    exact h.strays x hx hxm y hy hyl hyx
  others := h.others

/-- The merged blocks of an anchor are as many as there are query lists among its blocks. -/
theorem length_sorted (n : NodeId) : (sorted o (table n)).length = (table n).length := by
  rw [(Grouping.sorted_perm (h.holds.keys n)).length_eq, List.length_map]

/-- **The merged blocks put back**, anchor by anchor. -/
theorem emitted_eq (hall : ∀ n, n ∈ all ↔ table n ≠ []) :
    Grouping.emitted o s.aggregator.groups = ∑ n ∈ all.toFinset, (table n).length := by
  have hgroups : all.toFinset = (s.aggregator.groups.map Group.anchor).toFinset := by
    ext n
    rw [List.mem_toFinset, List.mem_toFinset, hall, h.keeps.known, List.mem_map]
  rw [hgroups, List.sum_toFinset _ h.keeps.nodup_anchors, Grouping.emitted, List.length_flatMap,
    List.map_map]
  refine congrArg List.sum (List.map_congr_left fun g hg => ?_)
  rw [Function.comp_apply, ← h.length_sorted (o := o), ← List.length_map Planted.id,
    ← Grouping.sorted_mapValues, ← h.keeps.merged g hg]
  rfl

variable (hs : t.IsSheet) (hn : t.ids.Nodup)

include hs hn

/-- An anchor other than the root is a wrapper right below it, and stays there. -/
theorem exists_child (hne : table n ≠ []) (ht : n ≠ t.id) :
    ∃ c ∈ (t.prune (gone o done)).children, c.id = n ∧ o.wraps c.content = true := by
  obtain ⟨x, hx, hh⟩ := (h.ne_nil_iff n).1 hne
  obtain ⟨-, a, ha, rfl, -⟩ := Planted.homed_iff.1 hh
  have hon := hs.onSheet_of_leaves (h.media x hx).1 (Site.leaves_of_homed hh) ha
  obtain ⟨c, hc, hi, hw, hm⟩ := hon.resolve_left ht
  have hkept : gone o done c.id = false := by
    rw [Bool.eq_false_iff]
    intro hg
    obtain ⟨y, hy, -, hyc⟩ := gone_iff.1 hg
    obtain ⟨hyi, hym⟩ := h.media y hy
    have hcs := Planted.child_mem_sites (t.self_mem_sites []) hc
    obtain rfl := Planted.eq_of_id_eq hn (Planted.mem_sites_of_mem_inner hyi) hcs hyc
    exact Bool.false_ne_true (hm.symm.trans hym)
  refine ⟨c.prune (gone o done), ?_, (Planted.id_prune _ c).trans hi, ?_⟩
  · rw [Planted.children_prune, Planted.pruneAll_eq]
    exact List.mem_map_of_mem (List.mem_filter.2 ⟨hc, by rw [hkept]; rfl⟩)
  · rwa [Planted.content_prune]

variable (hall : ∀ n, n ∈ all ↔ table n ≠ [])

include hall

/-- **The pairs of a scope and a query list**, anchor by anchor. -/
theorem toFinset_placed :
    ((done.filter (Site.leaves o)).map fun x => (judged o x.above, x.here.tree.query)).toFinset
      = all.toFinset.biUnion fun n =>
        ((Registry.keys (table n)).map (Prod.mk (t.scope n))).toFinset := by
  ext e
  rw [List.mem_toFinset, List.mem_map, Finset.mem_biUnion]
  constructor
  · rintro ⟨x, hx, rfl⟩
    obtain ⟨hx, hl⟩ := List.mem_filter.1 hx
    obtain ⟨n, hh⟩ := Site.exists_homed hl
    refine ⟨n, List.mem_toFinset.2 ((hall n).2 ((h.ne_nil_iff n).2 ⟨x, hx, hh⟩)), ?_⟩
    rw [judged_of_homed hs hn (h.media x hx).1 hh, List.mem_toFinset]
    exact List.mem_map_of_mem ((h.mem_keys_iff n).2 ⟨x, hx, hh, rfl⟩)
  · rintro ⟨n, -, he⟩
    obtain ⟨k, hk, rfl⟩ := List.mem_map.1 (List.mem_toFinset.1 he)
    obtain ⟨x, hx, hh, rfl⟩ := (h.mem_keys_iff n).1 hk
    exact ⟨x, List.mem_filter.2 ⟨hx, Site.leaves_of_homed hh⟩,
      by rw [judged_of_homed hs hn (h.media x hx).1 hh]⟩

/-- There are as many pairs as the table has entries. -/
theorem card_placed :
    ((done.filter (Site.leaves o)).map fun x =>
        (judged o x.above, x.here.tree.query)).toFinset.card
      = ∑ n ∈ all.toFinset, (table n).length := by
  rw [h.toFinset_placed hs hn hall, Finset.card_biUnion fun n _ m _ hne => ?_]
  · refine Finset.sum_congr rfl fun n _ => ?_
    have hnodup : ((Registry.keys (table n)).map (Prod.mk (t.scope n))).Nodup :=
      (h.holds.keys n).map (Prod.mk_right_injective _)
    rw [List.toFinset_card_of_nodup hnodup, List.length_map, Registry.keys, List.length_map]
  · refine Finset.disjoint_left.2 fun e he he' => ?_
    obtain ⟨k, -, rfl⟩ := List.mem_map.1 (List.mem_toFinset.1 he)
    obtain ⟨k', -, he⟩ := List.mem_map.1 (List.mem_toFinset.1 he')
    exact hne (t.scope_injective (Prod.mk.inj he).1.symm)

/-- **The scopes of the blocks that leave** are those of the anchors. -/
theorem toFinset_scopes :
    ((done.filter (Site.leaves o)).map fun x => judged o x.above).toFinset
      = all.toFinset.image t.scope := by
  ext v
  rw [List.mem_toFinset, List.mem_map, Finset.mem_image]
  constructor
  · rintro ⟨x, hx, rfl⟩
    obtain ⟨hx, hl⟩ := List.mem_filter.1 hx
    obtain ⟨n, hh⟩ := Site.exists_homed hl
    exact ⟨n, List.mem_toFinset.2 ((hall n).2 ((h.ne_nil_iff n).2 ⟨x, hx, hh⟩)),
      (judged_of_homed hs hn (h.media x hx).1 hh).symm⟩
  · rintro ⟨n, hmem, rfl⟩
    obtain ⟨x, hx, hh⟩ := (h.ne_nil_iff n).1 ((hall n).1 (List.mem_toFinset.1 hmem))
    exact ⟨x, List.mem_filter.2 ⟨hx, Site.leaves_of_homed hh⟩,
      judged_of_homed hs hn (h.media x hx).1 hh⟩

/-- The anchors other than the root are the children with that number. -/
theorem toFinset_children :
    (((t.prune (gone o done)).children.filter (·.id ∈ all)).map Planted.id).toFinset
      = all.toFinset.erase t.id := by
  ext n
  rw [List.mem_toFinset, List.mem_map, Finset.mem_erase, List.mem_toFinset]
  constructor
  · rintro ⟨c, hc, rfl⟩
    rw [List.mem_filter, decide_eq_true_eq] at hc
    refine ⟨fun he => ?_, hc.2⟩
    have htop := Planted.id_not_mem h.live.nodup
    rw [Planted.id_prune] at htop
    exact htop ((Planted.map_id_sublist _).mem (he ▸ List.mem_map_of_mem hc.1))
  · rintro ⟨hne, hmem⟩
    obtain ⟨c, hc, rfl, -⟩ := h.exists_child hs hn ((hall n).1 hmem) hne
    exact ⟨c, List.mem_filter.2 ⟨hc, decide_eq_true hmem⟩, rfl⟩

/-- **The wrappers that blocks have left for** are the anchors other than the root. -/
theorem card_anchors :
    ((((done.filter (Site.leaves o)).map fun x => judged o x.above).toFinset).erase .root).card
      = ((t.prune (gone o done)).children.filter (·.id ∈ all)).length := by
  have hnodup : (((t.prune (gone o done)).children.filter (·.id ∈ all)).map Planted.id).Nodup := by
    have hids := h.live.nodup
    rw [Planted.ids_eq, List.nodup_cons] at hids
    exact (hids.2.sublist (Planted.map_id_sublist _)).sublist (List.filter_sublist.map _)
  have hroot : t.scope t.id = .root := if_pos rfl
  rw [h.toFinset_scopes hs hn hall, ← hroot, ← Finset.image_erase t.scope_injective,
    Finset.card_image_of_injective _ t.scope_injective, ← h.toFinset_children hs hn hall,
    List.toFinset_card_of_nodup hnodup, List.length_map]

omit hs hn hall in
/-- The merged blocks of one anchor are counted once for every query list. -/
theorem tally_sorted {p : Content → Bool} {media wrapper : Nat} (hp : Steady o p media wrapper)
    (n : NodeId) :
    tally p (Planted.trees (sorted o (table n)))
        + media * ((done.filter (Site.homed o n)).map fun _ => 1).sum
      = ((done.filter (Site.homed o n)).map (·.here.tree.contents.countP p)).sum
        + media * (table n).length := by
  have hmedia : ∀ u ∈ (done.filter (Site.homed o n)).map (Site.parcel o), u.isMedia = true := by
    intro u hu
    obtain ⟨x, hx, rfl⟩ := List.mem_map.1 hu
    exact (x.isMedia_parcel o).trans (h.media x (List.mem_filter.1 hx).1).2
  have htally := Grouping.tally_merged hp hmedia
  have hkeys := Grouping.nodup_keys_merged ((done.filter (Site.homed o n)).map (Site.parcel o))
  rw [Tree.tally_eq_sum ((done.filter _).map _), List.map_map, List.length_map,
    ← Tree.tally_perm (Grouping.sorted_perm (o := o) hkeys), ← h.merged n,
    Grouping.sorted_mapValues, ← Planted.trees_eq, Registry.mapValues, List.length_map] at htally
  simpa [Function.comp_def, Site.countP_parcel hp] using htally

omit hs hn in
/-- **The merged blocks of all anchors**: a block that is taken counts no more, and a merged
block counts once. -/
theorem tally_groups {p : Content → Bool} {media wrapper : Nat} (hp : Steady o p media wrapper) :
    ∑ n ∈ all.toFinset, tally p (Planted.trees (sorted o (table n)))
        + media * (done.filter (Site.leaves o)).length
      = ((done.filter (Site.leaves o)).map (·.here.tree.contents.countP p)).sum
        + media * Grouping.emitted o s.aggregator.groups := by
  have hanchors : ∀ x ∈ done, ∀ n, x.homed o n = true → n ∈ all.toFinset := fun x hx n hh =>
    List.mem_toFinset.2 ((hall n).2 ((h.ne_nil_iff n).2 ⟨x, hx, hh⟩))
  have hsum := Finset.sum_congr (rfl : all.toFinset = _) fun n _ => h.tally_sorted hp n
  rw [Finset.sum_add_distrib, Finset.sum_add_distrib, ← Finset.mul_sum, ← Finset.mul_sum,
    sum_homed _ hanchors, sum_homed _ hanchors, ← h.emitted_eq hall] at hsum
  have hone : ∀ l : List Site, (l.map fun _ => 1).sum = l.length := fun l => by simp
  rw [← hsum, hone]

/-- **Nodes counted before and after** the groups are put back: with the merged blocks in,
and the wrappers of groups gone. -/
theorem tally_restored {p : Content → Bool} {media wrapper : Nat} (hp : Steady o p media wrapper)
    (hids : (done.map Site.id).Nodup) (hnodup : all.Nodup) :
    tally p (Planted.trees ((t.prune (gone o done)).restored o table all).children)
        + wrapper * ((t.prune (gone o done)).children.filter (·.id ∈ all)).length
        + media * (done.filter (Site.leaves o)).length
      = tally p (Planted.trees t.children)
        + media * Grouping.emitted o s.aggregator.groups := by
  have hgroups := h.tally_groups hall hp
  have hgone := Planted.tally_prune_gone (o := o) (p := p) hn h.media hids
  have hpid := Planted.id_prune (gone o done) t
  have hrestored := Planted.tally_restored o p table wrapper
    hnodup h.live.nodup (fun n hmem => ?_) fun c hc hmem => ?_
  · omega
  · by_cases ht : n = t.id
    · exact Or.inl (ht.trans hpid.symm)
    · obtain ⟨c, hc, hi, -⟩ := h.exists_child hs hn ((hall n).1 hmem) ht
      exact Or.inr ⟨c, hc, hi⟩
  · have hcs := Planted.child_mem_sites (Planted.self_mem_sites [] _) hc
    have ht : c.id ≠ t.id := fun he =>
      Planted.top_ne_inner h.live.nodup (Planted.mem_inner_iff.2 ⟨hcs, List.cons_ne_nil _ _⟩)
        (hpid.trans he.symm)
    obtain ⟨d, hd, hi, hw⟩ := h.exists_child hs hn ((hall _).1 hmem) ht
    have hds := Planted.child_mem_sites (Planted.self_mem_sites [] _) hd
    have hdc := Planted.eq_of_id_eq h.live.nodup hds hcs hi
    rw [Site.mk.injEq] at hdc
    exact hp.wrapper _ (hdc.2 ▸ hw)

end Surveying

namespace Grouping

/-- **A run that ends well reports its summary** last. -/
theorem events_of_transform {root : NodeId} (hok : (transform o f root).failure = none) :
    ∃ before, (transform o f root).events = before ++ [.grouped (summary o f root)] ∧
      ∀ m, .grouped m ∈ before → .grouped m ∈ (captured o f root).1.events := by
  rw [(transform_eq o f root).1] at hok
  refine ⟨(captured o f root).1.events ++ (if (annotation? f root).isSome then [.annotationKept]
    else []), ?_, fun m hm => ?_⟩
  · rw [events_eq, hok, List.append_assoc]
    rfl
  · refine (List.mem_append.1 hm).resolve_right fun hm => ?_
    split_ifs at hm
    · cases List.mem_singleton.1 hm
    · cases hm

end Grouping

namespace Forest.Stands

variable (h : f.Stands t) (ht : t.tree.Sheet)

include h ht

/-- **The blocks with a scope**, told by the labels above them. -/
theorem placed_eq (hm : Mild o t) :
    Grouping.placed o f t.id = ((t.inner.filter Site.isMedia).filter (Site.leaves o)).map
      fun x => (judged o x.above, x.here.tree.query) := by
  have hs := ht.isSheet
  have hblocks : ∀ x ∈ t.inner.filter Site.isMedia,
      (Grouping.verdict o .start f x.id, f.queryList x.id)
        = (judged o x.above, x.here.tree.query) := fun x hx => by
    have hx := (List.mem_filter.1 hx).1
    have hxs := Planted.mem_sites_of_mem_inner hx
    rw [h.verdict hxs (hs.ends hx), queryList_site h hxs]
  have hmap : (f.atRulesNamed mediaName t.id).map
        (fun block => (Grouping.verdict o .start f block, f.queryList block))
      = (t.inner.filter Site.isMedia).map fun x => (judged o x.above, x.here.tree.query) := by
    rw [h.atRulesNamed ht.contained, List.map_map]
    exact List.map_congr_left hblocks
  rw [Grouping.placed, hmap, List.filter_map]
  refine congrArg _ (List.filter_congr fun x hx => ?_)
  obtain ⟨hx, hxm⟩ := List.mem_filter.1 hx
  exact hm.taken_judged hs hx hxm

/-- **The blocks of a run that ends well** are all done, and counted. -/
theorem surveyed (hm : Mild o t.bare) (hok : (Grouping.captured o f t.id).2 = none) :
    ∃ table, Surveying o (Grouping.setAside f t.id) t.bare (t.bare.inner.filter Site.isMedia)
        (Grouping.captured o f t.id).1 table ∧
      Counted o (t.bare.inner.filter Site.isMedia) (Grouping.captured o f t.id).1 := by
  obtain ⟨h₀, -⟩ := h.setAside
  have hblocks := h₀.atRulesNamed ht.bare.contained
  have hnodup : ((t.bare.inner.filter Site.isMedia).map Site.id).Nodup :=
    (Planted.nodup_inner h₀.nodup).sublist (List.filter_sublist.map _)
  have hcounted : Counted o [] ⟨Grouping.setAside f t.id, .start, .start, [], 0⟩ :=
    ⟨rfl, rfl, fun _ hmem => absurd hmem List.not_mem_nil⟩
  have hrun := (Surveying.start h₀).run h₀ ht.bare.isSheet hm hcounted
    (fun x hx => List.mem_filter.1 hx) hnodup
  rw [← hblocks, Planted.id_bare] at hrun
  exact hrun hok

end Forest.Stands

/-- **A run that ends well**, before its wrappers dissolve: its blocks are counted, and the
sheet stands with the groups of all anchors put back, as `t'`. -/
structure Finished (o : Options) (f : Forest) (t : Planted) (table : Table) (all : List NodeId)
    (t' : Planted) : Prop where
  survey : Surveying o (Grouping.setAside f t.id) t.bare (t.bare.inner.filter Site.isMedia)
    (Grouping.captured o f t.id).1 table
  counted : Counted o (t.bare.inner.filter Site.isMedia) (Grouping.captured o f t.id).1
  restored : t' = (t.bare.prune (gone o (t.bare.inner.filter Site.isMedia))).restored o table all
  nodup : all.Nodup
  known : ∀ n, n ∈ all ↔ table n ≠ []
  stands : (Grouping.emit o (Grouping.captured o f t.id).1.forest
    (Grouping.captured o f t.id).1.aggregator.groups).Stands t'
  sheet : t'.tree.Sheet
  grouped : Tree.dissolveAll o t'.tree.children
    = Grouping.groupedAll o (Grouping.body t.tree.children)

/-- **Every run that ends well** is one. -/
theorem Forest.Stands.finished (h : f.Stands t) (ht : t.tree.Sheet) (hb : o.Blind)
    (hm : o.SparesMedia) (hok : (Grouping.transform o f t.id).failure = none) :
    ∃ table all t', Finished o f t table all t' := by
  have hcaptured : (Grouping.captured o f t.id).2 = none :=
    (Grouping.transform_eq o f t.id).1.symm.trans hok
  obtain ⟨h₀, -⟩ := h.setAside
  obtain ⟨table, hsurvey, hcounted⟩ := h.surveyed ht (hb.mild hm _) hcaptured
  obtain ⟨all, hnodup, hknown, hstands, hsheet, hgrouped, -⟩ :=
    (hsurvey.capturing ht.bare.isSheet (List.append_nil _).symm).emit h₀ ht.bare
  rw [t.tree_bare, Tree.children_withChildren] at hgrouped
  exact ⟨table, all, _, hsurvey, hcounted, rfl, hnodup, hknown, hstands, hsheet, hgrouped⟩

namespace Finished

variable {t' : Planted} (hf : Finished o f t table all t') (h : f.Stands t) (ht : t.tree.Sheet)

include hf h ht

/-- The blocks found are those of the sheet; some are captured, and the others left. -/
theorem blocks_eq :
    (Grouping.summary o f t.id).blocks
        = tally (Content.isAtRuleNamed mediaName) (Grouping.body t.tree.children) ∧
      (Grouping.summary o f t.id).blocks
        = (Grouping.summary o f t.id).captured + (Grouping.summary o f t.id).leftInPlace := by
  obtain ⟨h₀, -⟩ := h.setAside
  have hfound := h₀.atRulesNamed ht.bare.contained
  rw [Planted.id_bare] at hfound
  have hblocks : (Grouping.summary o f t.id).blocks = (t.bare.inner.filter Site.isMedia).length :=
    (congrArg List.length hfound).trans (List.length_map _)
  have hcaptured : (Grouping.summary o f t.id).captured = _ := hf.counted.captured
  have hleft : (Grouping.summary o f t.id).leftInPlace = _ := hf.counted.leftInPlace
  constructor
  · have htally := Planted.length_filter_inner (Content.isAtRuleNamed mediaName) t.bare
    rw [← Planted.children_tree, t.tree_bare, Tree.children_withChildren] at htally
    exact hblocks.trans htally
  · rw [hblocks, hcaptured, hleft]
    exact List.length_eq_length_filter_add _

/-- The blocks captured are those with a scope, and the merged blocks put back are the
pairs of a scope and a query list. -/
theorem placed_eq (hb : o.Blind) (hm : o.SparesMedia) :
    (Grouping.summary o f t.id).captured = (Grouping.placed o f t.id).length ∧
      (Grouping.summary o f t.id).emitted = (Grouping.placed o f t.id).toFinset.card := by
  obtain ⟨h₀, -⟩ := h.setAside
  rw [h.placed_eq ht (hb.mild hm t), ← Grouping.filter_media_bare ht]
  constructor
  · rw [List.length_map]
    exact hf.counted.captured
  · rw [hf.survey.card_placed ht.bare.isSheet h₀.nodup hf.known]
    exact hf.survey.emitted_eq hf.known

/-- **Nodes counted before and after** a run, its wrappers not yet dissolved. -/
theorem tally_eq {p : Content → Bool} {media wrapper : Nat} (hb : o.Blind) (hm : o.SparesMedia)
    (hp : Steady o p media wrapper) :
    tally p (Planted.trees t'.children)
        + wrapper * (((Grouping.placed o f t.id).map Prod.fst).toFinset.erase .root).card
        + media * (Grouping.summary o f t.id).captured
      = tally p (Grouping.body t.tree.children)
        + media * (Grouping.summary o f t.id).emitted := by
  obtain ⟨h₀, -⟩ := h.setAside
  have hids := (Planted.nodup_inner h₀.nodup).sublist
    ((List.filter_sublist (p := Site.isMedia)).map Site.id)
  have htally := hf.survey.tally_restored ht.bare.isSheet h₀.nodup hf.known hp hids hf.nodup
  rw [← hf.restored, ← hf.survey.card_anchors ht.bare.isSheet h₀.nodup hf.known,
    ← hf.counted.captured, ← Planted.children_tree t.bare, t.tree_bare,
    Tree.children_withChildren] at htally
  rw [h.placed_eq ht (hb.mild hm t), ← Grouping.filter_media_bare ht, List.map_map]
  exact htally

omit h ht in
/-- The wrappers that are left to dissolve. -/
theorem unusedWrappers_eq :
    (Grouping.summary o f t.id).unusedWrappers = tally o.wraps (Planted.trees t'.children) := by
  have hid : t'.id = t.id := by
    rw [hf.restored, Planted.id_restored, Planted.id_prune, Planted.id_bare]
  have hfound := hf.stands.collect hf.sheet.contained o.isWrapper
  rw [hid] at hfound
  rw [← o.isWrapper_eq_wraps, ← Planted.length_filter_inner]
  exact (congrArg List.length hfound).trans (List.length_map _)

omit h in
/-- The blocks left once the wrappers are dissolved. -/
theorem tally_grouped (hm : o.SparesMedia) :
    (Grouping.grouped o t.tree).contents.countP (Content.isAtRuleNamed mediaName)
      = tally (Content.isAtRuleNamed mediaName) (Planted.trees t'.children) := by
  have hdissolve := Tree.tally_dissolveAll (o := o) (p := Content.isAtRuleNamed mediaName)
    (fun c hw => by
      rw [Bool.eq_false_iff]
      exact fun hc => Bool.false_ne_true ((hm.wraps hc).symm.trans hw)) t'.tree.children
  rw [hf.grouped, Planted.children_tree t'] at hdissolve
  rw [Tree.countP_contents, Grouping.grouped, Tree.content_withChildren, ht.root,
    Tree.children_withChildren, Tree.tally_append, hdissolve,
    Grouping.tally_annotationOf Content.isAtRuleNamed_of_leaf ht.branches]
  exact Nat.zero_add _

end Finished

/-- The annotation at the end of a sheet, and its root, are not counted. -/
theorem Tree.Sheet.countP_contents {p : Content → Bool} {u : Tree} (hu : u.Sheet)
    (hr : p .root = false) (hp : ∀ c : Content, c.isContainer = false → p c = false) :
    u.contents.countP p = tally p (Grouping.body u.children) := by
  have hbody := congrArg (tally p) (Grouping.body_append u.children)
  rw [Tree.tally_append, Grouping.tally_annotationOf hp hu.branches] at hbody
  rw [Tree.countP_contents, hu.root, hr, ← hbody]
  exact Nat.zero_add _

/-- **The summary of a run that ends well**, on any sheet that stands in a forest. -/
theorem Forest.Stands.accounts (h : f.Stands t) (ht : t.tree.Sheet) (hb : o.Blind)
    (hm : o.SparesMedia) (hs : o.SparesStyles)
    (hok : (Grouping.transform o f t.id).failure = none) :
    ∃ before s, (Grouping.transform o f t.id).events = before ++ [.grouped s] ∧
      (∀ m, .grouped m ∉ before) ∧
      s.blocks = t.tree.contents.countP (Content.isAtRuleNamed mediaName) ∧
      s.blocks = s.captured + s.leftInPlace ∧
      s.captured = (Grouping.placed o f t.id).length ∧
      s.emitted = (Grouping.placed o f t.id).toFinset.card ∧
      ((Grouping.transform o f t.id).forest.tree t.id).contents.countP
        (Content.isAtRuleNamed mediaName) = s.emitted + s.leftInPlace ∧
      s.unusedWrappers
          + (((Grouping.placed o f t.id).map Prod.fst).toFinset.erase .root).card
        = t.tree.contents.countP o.wraps := by
  obtain ⟨before, hevents, hsilent⟩ := Grouping.events_of_transform hok
  obtain ⟨table, all, t', hf⟩ := h.finished ht hb hm hok
  obtain ⟨hblocks, hsplit⟩ := hf.blocks_eq h ht
  obtain ⟨hcaptured, hemitted⟩ := hf.placed_eq h ht hb hm
  have hmedia := hf.tally_eq h ht hb hm (.blocks hm)
  have hwrappers := hf.tally_eq h ht hb hm (.wrappers hb hm)
  have hunused := hf.unusedWrappers_eq
  have hcount₁ := ht.countP_contents (p := Content.isAtRuleNamed mediaName) rfl
    Content.isAtRuleNamed_of_leaf
  have hcount₂ := ht.countP_contents (p := o.wraps) rfl fun c hc => by
    rw [Options.wraps, hs c hc, Bool.and_false]
  have htree : (Grouping.transform o f t.id).forest.tree t.id = Grouping.grouped o t.tree := by
    obtain ⟨⟨u, hu, hid, he⟩, -⟩ := h.transform_of_none ht hok
    have htop := hu.tree_top
    rwa [hid, he] at htop
  have hgrouped := hf.tally_grouped ht hm
  refine ⟨before, Grouping.summary o f t.id, hevents,
    fun m hmem => hf.counted.silent m (hsilent m hmem), ?_, hsplit, hcaptured, hemitted, ?_, ?_⟩
  · rw [hcount₁, hblocks]
  · rw [htree, hgrouped]
    omega
  · rw [hcount₂, hunused]
    omega

namespace Grouping

variable {css : Text} {t : Tree}

/-- **The summary of a run that ends well accounts for every block and wrapper.** The blocks
of the sheet are captured or left in place; captured are those with a scope, and put back
is one merged block for every scope and query list among them. The sheet then has the
blocks that were put back or left, and the wrappers that no block was captured in were
the unused ones. -/
theorem transform_accounts (hb : o.Blind) (hm : o.SparesMedia) (hs : o.SparesStyles)
    (ht : Tree.parse css = .ok t) (f : Forest) :
    let sheet := (f.plant t).2
    let root := (f.plant t).1
    let run := transform o sheet root
    run.failure = none → ∃ before s, run.events = before ++ [.grouped s] ∧
      (∀ m, .grouped m ∉ before) ∧
      s.blocks = t.contents.countP (Content.isAtRuleNamed mediaName) ∧
      s.blocks = s.captured + s.leftInPlace ∧
      s.captured = (placed o sheet root).length ∧
      s.emitted = (placed o sheet root).toFinset.card ∧
      (run.forest.tree root).contents.countP (Content.isAtRuleNamed mediaName)
        = s.emitted + s.leftInPlace ∧
      s.unusedWrappers + (((placed o sheet root).map Prod.fst).toFinset.erase .root).card
        = t.contents.countP o.wraps := by
  intro sheet root run hok
  obtain ⟨h, hid, hsheet⟩ := Tree.stands_of_parse ht f
  have hid : root = (t.planted f.size).id := hid
  have hrun : run = transform o sheet (t.planted f.size).id := congrArg (transform o sheet) hid
  rw [hrun] at hok ⊢
  rw [hid]
  have haccounts := h.accounts hsheet hb hm hs hok
  rwa [Tree.tree_planted] at haccounts

/-- The block in the second wrapper is merged into the first one's, one block stays, and
the wrapper without a block is the unused one. -/
theorem transform_accounts_mqgroup : ∃ t,
    Tree.parse "@mqgroup{@media a{b{}}@media a{c{}}}@mqgroup{}d{@media a{}}".toList = .ok t ∧
      let sheet := (Forest.empty.plant t).2
      let root := (Forest.empty.plant t).1
      let run := transform {} sheet root
      run.failure = none ∧ ∃ before s, run.events = before ++ [.grouped s] ∧
        (∀ m, .grouped m ∉ before) ∧
        s.blocks = t.contents.countP (Content.isAtRuleNamed mediaName) ∧
        s.blocks = s.captured + s.leftInPlace ∧
        s.captured = (placed {} sheet root).length ∧
        s.emitted = (placed {} sheet root).toFinset.card ∧
        (run.forest.tree root).contents.countP (Content.isAtRuleNamed mediaName)
          = s.emitted + s.leftInPlace ∧
        s.unusedWrappers + (((placed {} sheet root).map Prod.fst).toFinset.erase .root).card
          = t.contents.countP (Options.wraps {}) := by
  obtain ⟨t, ht, hok⟩ : ∃ t, Tree.parse
      "@mqgroup{@media a{b{}}@media a{c{}}}@mqgroup{}d{@media a{}}".toList = .ok t ∧
        (transform {} (Forest.empty.plant t).2 (Forest.empty.plant t).1).failure = none :=
    ⟨_, rfl, by decide +kernel⟩
  exact ⟨t, ht, hok, transform_accounts (.of_named rfl) (.of_named rfl (by decide)) (.of_named rfl)
    ht Forest.empty hok⟩

end Grouping
end MediaGrouping
