/-
# Blocks taken in any order

Where a block belongs does not depend on when it is asked. A sweep takes the blocks
of a sheet in any order, and goes on after a nested wrapper. What holds in between is
`Surveying`, which knows of no order. A block that is still in the sheet has the labels
above it that it had at the start; one that has left inside another is below a nested
wrapper exactly if it was so in the sheet, and has no anchor, as it had none there. So
every block is judged as in the untouched sheet (`Grouping.sweep_eq_verdicts`).
-/

import MediaGrouping.Proofs.Grouping.NestedWrappers

namespace MediaGrouping

open Grouping (mediaName)

/-- What resolving says of a block, the number of its group aside. -/
inductive Verdict where
  | root
  | wrapper (anchor : NodeId)
  | tooDeep
  | nested (wrapper : NestedWrapper)
  deriving DecidableEq

namespace Grouping

/-- What a resolver says of a block. -/
def verdict (o : Options) (r : Resolver) (f : Forest) (block : NodeId) : Verdict :=
  match r.resolve o mediaName f block with
  | .error e => .nested e
  | .ok (.rootGroup, _) => .root
  | .ok (.wrapperGroup _ anchor, _) => .wrapper anchor
  | .ok (.tooDeep, _) => .tooDeep

/-- Takes blocks in one after the other, and goes on after a nested wrapper; gives what
the resolver says of each when it is met. -/
def sweep (o : Options) (root : NodeId) : Capture → List NodeId → List Verdict
  | _, [] => []
  | s, block :: rest =>
    verdict o s.resolver s.forest block ::
      match capture o root s block with
      | .error (_, s) => sweep o root s rest
      | .ok s => sweep o root s rest

/-- What the labels above a block say of it. -/
def judged (o : Options) (above : List Label) : Verdict :=
  match Scope.offence? o mediaName above with
  | some w => .nested (.ofLabel w)
  | none => match Scope.anchor? o mediaName above with
    | some a => if a.content.isRoot then .root else .wrapper a.id
    | none => .tooDeep

end Grouping

variable {o : Options} {f f₀ : Forest} {t : Planted} {x y : Site} {done : List Site}
  {s s' : Capture} {table : Table} {a w : Label} {above : List Label}

/-- A block below a nested wrapper has no anchor. -/
theorem Scope.anchor?_of_offence {name : Text} (h : offence? o name above = some w) :
    anchor? o name above = none := by
  obtain ⟨b, rest, he, -, hw⟩ := offenceOf_eq_some.1 h
  rw [Option.eq_none_iff_forall_ne_some]
  intro a ha
  rcases anchorOf_eq_some.1 ha with ⟨hs, -⟩ | ⟨c, hs, -, hr⟩
  · rw [hs] at he
    cases he
  · rw [hs] at he
    obtain ⟨-, he⟩ := List.cons.inj he
    obtain ⟨rfl, -⟩ := List.cons.inj he
    exact Bool.false_ne_true ((wraps_root hr).symm.trans hw)

/-- **What a resolver says of a block** is told by the labels above the block, whatever
groups the resolver knows. -/
theorem Forest.Stands.verdict (h : f.Stands t) (hx : x ∈ t.sites [])
    (he : Scope.Ends mediaName x.above) (r : Resolver) :
    Grouping.verdict o r f x.id = Grouping.judged o x.above := by
  have hl := h.locate (o := o) hx he
  rw [Grouping.judged]
  cases hw : Scope.offence? o mediaName x.above with
  | some w =>
    obtain ⟨hc, hs⟩ := h.site_above hx (Scope.mem_of_offence? hw)
    rw [hw] at hl
    simp only [Grouping.verdict, Resolver.resolve, hl, NestedWrapper.ofNode_eq hc hs]
  | none =>
    rw [hw] at hl
    cases ha : Scope.anchor? o mediaName x.above with
    | none =>
      rw [ha] at hl
      simp only [Grouping.verdict, Resolver.resolve, hl]
    | some a =>
      rw [ha] at hl
      have hr : f.holds Content.isRoot a.id = a.content.isRoot := by
        rw [Forest.holds, (h.site_above hx (Scope.mem_of_anchor? ha)).1, Option.any_some]
      simp only [Grouping.verdict, Resolver.resolve, hl, Resolver.assign, hr]
      split_ifs <;> rfl

/-- Where no block is a wrapper, every block with an anchor leaves. -/
theorem Mild.leaves_of_anchor (hm : Mild o t) (hs : t.IsSheet) (hx : x ∈ t.inner)
    (hxm : x.isMedia = true) (ha : Scope.anchor? o mediaName x.above = some a) :
    x.leaves o = true := by
  refine Site.leaves_iff.2 ⟨hxm, a, ha, ?_⟩
  rw [Bool.eq_false_iff]
  intro hma
  rcases hs.anchor_cases hx ha with ⟨-, rfl⟩ | ⟨-, hw, c, hc, rfl⟩
  · exact absurd hs.root (Bool.eq_false_iff.1 (Scope.isRoot_of_named hma))
  · have hci : ⟨[t.label], c⟩ ∈ t.inner := Planted.mem_inner_iff.2
      ⟨Planted.child_mem_sites (t.self_mem_sites []) hc, List.cons_ne_nil _ _⟩
    exact Bool.false_ne_true ((hm.media _ hci hma).symm.trans hw)

/-- **What holds between two blocks of a sweep**, `f₀` being the forest and `t` the sheet
at the start. -/
structure Surveying (o : Options) (f₀ : Forest) (t : Planted) (done : List Site) (s : Capture)
    (table : Table) : Prop where
  media : ∀ y ∈ done, y ∈ t.inner ∧ y.isMedia = true
  live : s.forest.Stands (t.prune (gone o done))
  size_le : f₀.size ≤ s.forest.size
  keeps : Aggregator.Keeps t.id s.resolver s.aggregator table
  holds : s.forest.Holds f₀.size table
  merged : ∀ n, (table n).mapValues Planted.tree
    = Grouping.merged ((done.filter (Site.homed o n)).map (Site.parcel o))
  strays : ∀ x ∈ t.inner, x.isMedia = true → ∀ y ∈ done, y.leaves o = true →
    y.here.label ∈ x.above → IsStray o s.forest t x
  others : ∀ u, f₀.Stands u → u.id ≠ t.id → s.forest.Stands u

namespace Surveying

/-- **A sweep starts** with the whole sheet and no group. -/
theorem start (h₀ : f₀.Stands t) : Surveying o f₀ t [] ⟨f₀, .start, .start, [], 0⟩ fun _ => [] where
  media := List.forall_mem_nil _
  live := by
    have hp : t.prune (gone o []) = t := Planted.prune_of_kept fun _ _ => rfl
    rwa [hp]
  size_le := le_rfl
  keeps := Aggregator.Keeps.start t.id
  holds := Forest.Holds.empty f₀ f₀.size
  merged := fun _ => rfl
  strays := fun _ _ _ _ h => absurd h List.not_mem_nil
  others := fun _ h _ => h

section

variable (h : Surveying o f₀ t done s table) (h₀ : f₀.Stands t) (hs : t.IsSheet) (hm : Mild o t)
  (hx : x ∈ t.inner) (hxm : x.isMedia = true)

include h hx hxm

theorem media_append : ∀ y ∈ done ++ [x], y ∈ t.inner ∧ y.isMedia = true :=
  List.forall_mem_append.2 ⟨h.media, List.forall_mem_singleton.2 ⟨hx, hxm⟩⟩

/-- **A block that stays where it is.** -/
theorem skip (hl : x.leaves o = false) (hf : s'.forest = s.forest)
    (hr : s'.resolver = s.resolver) (ha : s'.aggregator = s.aggregator) :
    Surveying o f₀ t (done ++ [x]) s' table where
  media := h.media_append hx hxm
  live := by rw [hf, gone_append_of_stays hl]; exact h.live
  size_le := hf ▸ h.size_le
  keeps := hr ▸ ha ▸ h.keeps
  holds := hf ▸ h.holds
  merged := fun n => by
    rw [filter_homed_append_of_stays hl]
    exact h.merged n
  strays := fun y hy hym z hz hzl hzy => by
    rcases List.mem_append.1 hz with hz | hz
    · exact hf ▸ h.strays y hy hym z hz hzl hzy
    · rw [List.mem_singleton.1 hz, hl] at hzl
      cases hzl
  others := hf ▸ h.others

include h₀ hs

/-- **A block that leaves** is taken out of the sheet. -/
theorem take {b : Planted} {m : Registry Planted} (hl : x.leaves o = true)
    (ha : Scope.anchor? o mediaName x.above = some a)
    (ht : Capture.Takes o t.id f₀.size table a.id (t.prune (gone o done)) x s s' m b) :
    Surveying o f₀ t (done ++ [x]) s' (Function.update table a.id m) where
  media := h.media_append hx hxm
  live := by
    rw [gone_append_of_leaves hl, ← Planted.prune_prune]
    exact ht.pruned
  size_le := h.size_le.trans ht.spares.size_le
  keeps := ht.keeps
  holds := ht.holds
  merged := fun n => merged_append_of_leaves hl ha ht.merged (h.merged n)
  strays := fun y hy hym z hz hzl hzy => by
    have hfresh : ∀ k ∈ t.ids, k ∉ (table a.id).tops := fun k hk hm =>
      Nat.not_lt.2 (h.holds.fresh _ _ hm) (h₀.lt_size hk)
    rcases List.mem_append.1 hz with hz | hz
    · exact (h.strays y hy hym z hz hzl hzy).takes ht (Planted.id_prune _ t) hfresh
    · obtain rfl := List.mem_singleton.1 hz
      exact ht.isStray h₀.nodup hs hx hxm hy hym hzy
  others := fun u hu hne => by
    refine ht.spares.stands u (h.others u hu hne) fun hm => ?_
    rcases List.mem_cons.1 hm with hm | hm
    · exact hne (hm.trans (Planted.id_prune _ t))
    · exact Nat.not_lt.2 (h.holds.fresh _ _ hm) (hu.lt_size u.self_mem_ids)

include hm

/-- **One block of a sweep**, in no other that has left. -/
theorem step_live (hne : ∀ y ∈ done, y.id ≠ x.id)
    (hno : ∀ y ∈ done, y.leaves o = true → y.here.label ∉ x.above) :
    Grouping.verdict o s.resolver s.forest x.id = Grouping.judged o x.above ∧
      match Grouping.capture o t.id s x.id with
      | .error (_, s') => Surveying o f₀ t (done ++ [x]) s' table
      | .ok s' => ∃ table', Surveying o f₀ t (done ++ [x]) s' table' := by
  have hlive := mem_inner_prune_gone h₀.nodup h.media hx hxm hne hno
  have hlives := Planted.mem_sites_of_mem_inner hlive
  have hends := hs.ends hx
  refine ⟨h.live.verdict hlives hends _, ?_⟩
  have hstays : Scope.anchor? o mediaName x.above = none → x.leaves o = false := fun ha => by
    rw [Site.leaves, ha, Option.any_none, Bool.and_false]
  cases ho : Scope.offence? o mediaName x.above with
  | some w =>
    rw [Capture.capture_of_offence h.live hlives hends ho]
    exact h.skip hx hxm (hstays (Scope.anchor?_of_offence ho)) rfl rfl rfl
  | none =>
    cases ha : Scope.anchor? o mediaName x.above with
    | some a =>
      have hroot : a.content.isRoot = true ↔ a.id = t.id := hs.isRoot_anchor h₀.nodup hx ha
      obtain ⟨s', m, b, hcap, ht⟩ := Capture.capture_of_anchor h.live hlive hends ho ha hroot
        h.keeps h.holds (by rw [Planted.id_prune]; exact h₀.lt_size t.self_mem_ids) h.size_le
      rw [hcap]
      exact ⟨_, h.take h₀ hs hx hxm (hm.leaves_of_anchor hs hx hxm ha) ha ht⟩
    | none =>
      obtain ⟨s', hcap, hf, hr, hag⟩ := Capture.capture_of_none t.id h.live hlives hends ho ha
      rw [hcap]
      exact ⟨_, h.skip hx hxm (hstays ha) hf hr hag⟩

omit h₀ in
/-- **One block of a sweep**, in another that has left: it is judged as in the sheet,
where it stays for the same reason. -/
theorem step_stray (hy : y ∈ done) (hyl : y.leaves o = true) (hyx : y.here.label ∈ x.above) :
    Grouping.verdict o s.resolver s.forest x.id = Grouping.judged o x.above ∧
      match Grouping.capture o t.id s x.id with
      | .error (_, s') => Surveying o f₀ t (done ++ [x]) s' table
      | .ok s' => ∃ table', Surveying o f₀ t (done ++ [x]) s' table' := by
  have hl : x.leaves o = false := by
    rw [Bool.eq_false_iff]
    exact fun hl => Site.label_not_mem_above hl (h.media y hy).2 hyx
  have hxa : Scope.anchor? o mediaName x.above = none := by
    rw [Option.eq_none_iff_forall_ne_some]
    exact fun a ha => Bool.false_ne_true (hl.symm.trans (hm.leaves_of_anchor hs hx hxm ha))
  obtain ⟨d, z, hd, hdt, hz, hzi, -, ho⟩ := h.strays x hx hxm y hy hyl hyx
  have hzs := Planted.mem_sites_of_mem_inner hz
  obtain ⟨path, hp, hrootless⟩ := hdt.exists_above hz
  have hends : Scope.Ends mediaName z.above := ⟨path, d.label, hp, Or.inr hdt.media, hrootless⟩
  have hza : Scope.anchor? o mediaName z.above = none := by
    rw [Option.eq_none_iff_forall_ne_some]
    intro a ha
    obtain ⟨-, hw⟩ := Scope.anchor?_of_named hrootless hdt.media (hp ▸ ha)
    exact Bool.false_ne_true ((hdt.mild hm).symm.trans hw)
  rw [← hzi]
  refine ⟨(hd.verdict hzs hends _).trans ?_, ?_⟩
  · rw [Grouping.judged, Grouping.judged, ho hm, hza, hxa]
  · cases hoz : Scope.offence? o mediaName z.above with
    | some w =>
      rw [Capture.capture_of_offence hd hzs hends hoz]
      exact h.skip hx hxm hl rfl rfl rfl
    | none =>
      obtain ⟨s', hcap, hf, hr, hag⟩ := Capture.capture_of_none t.id hd hzs hends hoz hza
      rw [hcap]
      exact ⟨_, h.skip hx hxm hl hf hr hag⟩

/-- **One block of a sweep** is judged as in the untouched sheet. -/
theorem step (hne : ∀ y ∈ done, y.id ≠ x.id) :
    Grouping.verdict o s.resolver s.forest x.id = Grouping.judged o x.above ∧
      match Grouping.capture o t.id s x.id with
      | .error (_, s') => Surveying o f₀ t (done ++ [x]) s' table
      | .ok s' => ∃ table', Surveying o f₀ t (done ++ [x]) s' table' := by
  -- inside a block that has left it is in a tree apart; else it is still in the sheet
  by_cases hstray : ∃ y ∈ done, y.leaves o = true ∧ y.here.label ∈ x.above
  · obtain ⟨y, hy, hyl, hyx⟩ := hstray
    exact h.step_stray hs hm hx hxm hy hyl hyx
  · exact h.step_live h₀ hs hm hx hxm hne fun y hy hyl hyx => hstray ⟨y, hy, hyl, hyx⟩

end

/-- **The blocks of a sweep** are judged as in the untouched sheet, whatever resolver is
asked there. -/
theorem sweep (h₀ : f₀.Stands t) (hs : t.IsSheet) (hm : Mild o t) (r : Resolver) :
    ∀ {order : List NodeId} {done : List Site} {s : Capture} {table : Table},
      Surveying o f₀ t done s table → order.Nodup →
      (∀ n ∈ order, ∃ x ∈ t.inner, x.isMedia = true ∧ x.id = n) → (∀ y ∈ done, y.id ∉ order) →
      Grouping.sweep o t.id s order = order.map (Grouping.verdict o r f₀) := by
  intro order
  induction order with
  | nil => intro _ _ _ _ _ _ _; rfl
  | cons n order ih =>
    intro done s table h hnodup hmedia hdone
    obtain ⟨hno, hn⟩ := List.nodup_cons.1 hnodup
    obtain ⟨⟨x, hx, hxm, rfl⟩, hblocks⟩ := List.forall_mem_cons.1 hmedia
    obtain ⟨hverdict, hstep⟩ := h.step h₀ hs hm hx hxm fun y hy he =>
      hdone y hy (he ▸ List.mem_cons_self)
    have hdone' : ∀ y ∈ done ++ [x], y.id ∉ order := List.forall_mem_append.2
      ⟨fun y hy hmem => hdone y hy (List.mem_cons_of_mem _ hmem), List.forall_mem_singleton.2 hno⟩
    rw [Grouping.sweep, List.map_cons, hverdict,
      h₀.verdict (Planted.mem_sites_of_mem_inner hx) (hs.ends hx) r]
    cases hc : Grouping.capture o t.id s x.id with
    | error ended =>
      rw [hc] at hstep
      exact congrArg _ (ih hstep hn hblocks hdone')
    | ok s' =>
      rw [hc] at hstep
      obtain ⟨table', h'⟩ := hstep
      exact congrArg _ (ih h' hn hblocks hdone')

end Surveying

namespace Grouping

variable {css : Text} {t : Tree} {order : List NodeId}

/-- **The scope of a block does not depend on when it is resolved.** In whatever order
the blocks of a sheet are resolved and taken in, also after nested wrappers, each is
judged as any resolver judges it in the untouched sheet. -/
theorem sweep_eq_verdicts (hb : o.Blind) (hm : o.SparesMedia) (ht : Tree.parse css = .ok t)
    (f : Forest) (r : Resolver)
    (horder : order.Perm ((f.plant t).2.atRulesNamed mediaName (f.plant t).1)) :
    sweep o (f.plant t).1 ⟨(f.plant t).2, .start, .start, [], 0⟩ order
      = order.map (verdict o r (f.plant t).2) := by
  obtain ⟨h₀, hid, hsheet⟩ := Tree.stands_of_parse ht f
  have hblocks : (f.plant t).2.atRulesNamed mediaName (f.plant t).1
      = ((t.planted f.size).inner.filter Site.isMedia).map Site.id := by
    rw [hid]
    exact h₀.atRulesNamed hsheet.contained
  rw [hblocks] at horder
  rw [hid]
  refine (Surveying.start h₀).sweep h₀ hsheet.isSheet (hb.mild hm _) r ?_ (fun n hn => ?_)
    (List.forall_mem_nil _)
  · exact horder.nodup_iff.2
      ((Planted.nodup_inner h₀.nodup).sublist (List.filter_sublist.map Site.id))
  · obtain ⟨x, hx, rfl⟩ := List.mem_map.1 (horder.mem_iff.1 hn)
    exact ⟨x, (List.mem_filter.1 hx).1, (List.mem_filter.1 hx).2, rfl⟩

/-- The blocks with the numbers 1, 2 and 5, of which 2 is in 1 and 5 below two wrappers. -/
theorem sweep_eq_verdicts_nested : ∃ t,
    Tree.parse "@media a{@media b{}}@mqgroup{@mqgroup{@media c{}}}".toList = .ok t ∧
      sweep {} (Forest.empty.plant t).1 ⟨(Forest.empty.plant t).2, .start, .start, [], 0⟩ [5, 1, 2]
        = [5, 1, 2].map (verdict {} .start (Forest.empty.plant t).2) := by
  let media (params : Text) : Content := .atRule ⟨mediaName, params, true⟩
  let wrapper : Content := .atRule ⟨"mqgroup".toList, [], true⟩
  have ht : Tree.parse "@media a{@media b{}}@mqgroup{@mqgroup{@media c{}}}".toList
      = .ok (.node .root none
        [.node (media ['a']) (some ⟨1, 1⟩) [.node (media ['b']) (some ⟨1, 10⟩) []],
          .node wrapper (some ⟨1, 21⟩) [.node wrapper (some ⟨1, 30⟩)
            [.node (media ['c']) (some ⟨1, 39⟩) []]]]) := rfl
  have hb : Options.Blind {} := .of_named rfl
  have hm : Options.SparesMedia {} := .of_named rfl (by decide)
  exact ⟨_, ht, sweep_eq_verdicts hb hm ht Forest.empty .start (by decide +kernel)⟩

end Grouping
end MediaGrouping
