/-
# A run in a mirror

A run sees of a forest what it reads of nodes, and never their numbers but to compare
them. So a run in a forest that mirrors another one (`Forest.Mirrors`) does the same as
in that one: blocks belong to corresponding places (`Mirrors.locate`), groups keep
corresponding merged blocks (`Mirrors.aggregate`), and in the end the forests still
mirror each other, with the same error and the same reports (`Mirrors.transform`).

The mirrored forest is linked all the way (`MediaGrouping.Proofs.Grouping.Apart`), which
is what the walks of a run need to be the same in a larger forest.
-/

import MediaGrouping.Proofs.Forest.Mirrors
import MediaGrouping.Proofs.Grouping.Apart
import MediaGrouping.Proofs.Registry

namespace MediaGrouping

/-! ### Numbers in what a run keeps -/

/-- The obstacle with its wrapper renumbered. -/
def Obstacle.rename (ρ : NodeId → NodeId) : Obstacle → Obstacle
  | .tooDeep => .tooDeep
  | .nested w => .nested (ρ w)

/-- The place with its nodes renumbered. -/
def Place.rename (ρ : NodeId → NodeId) (place : Place) : Place :=
  ⟨place.anchor.map ρ, place.foreign.map ρ⟩

/-- The resolution with its anchor renumbered. -/
def Resolution.rename (ρ : NodeId → NodeId) : Resolution → Resolution
  | .rootGroup => .rootGroup
  | .wrapperGroup id anchor => .wrapperGroup id (ρ anchor)
  | .tooDeep => .tooDeep

/-- The resolver with its anchors renumbered. -/
def Resolver.rename (ρ : NodeId → NodeId) (k : Resolver) : Resolver := ⟨k.anchors.map ρ⟩

/-- The group with its nodes renumbered. -/
def Group.rename (ρ : NodeId → NodeId) (g : Group) : Group :=
  { g with anchor := ρ g.anchor, merged := g.merged.mapValues ρ }

/-- The aggregator with the nodes of its groups renumbered. -/
def Aggregator.rename (ρ : NodeId → NodeId) (a : Aggregator) : Aggregator :=
  ⟨a.groups.map (Group.rename ρ), a.captured⟩

namespace Resolver

variable {ρ : NodeId → NodeId}

/-- **Anchors are numbered in their order**, whatever their numbers are. -/
theorem groupId_rename (hρ : Function.Injective ρ) (k : Resolver) (anchor : NodeId) :
    (k.rename ρ).groupId (ρ anchor) = ((k.groupId anchor).1, (k.groupId anchor).2.rename ρ) := by
  rw [groupId, rename, idxOf?_map_of_injective hρ, groupId]
  cases k.anchors.idxOf? anchor with
  | some index => rfl
  | none =>
    rw [List.length_map, rename, List.map_append]
    rfl

end Resolver

namespace Aggregator

variable {ρ : NodeId → NodeId}

theorem group?_rename (a : Aggregator) (id : GroupId) :
    (a.rename ρ).group? id = (a.group? id).map (Group.rename ρ) := by
  rw [group?, rename, List.find?_map]
  rfl

theorem place_rename (g : Group) (gs : List Group) :
    place (g.rename ρ) (gs.map (Group.rename ρ)) = (place g gs).map (Group.rename ρ) := by
  induction gs with
  | nil => rfl
  | cons k gs ih =>
    have hg : (g.rename ρ).id = g.id := rfl
    have hk : (k.rename ρ).id = k.id := rfl
    rw [List.map_cons, place, place, hg, hk, ih]
    split_ifs <;> rfl

end Aggregator

namespace Forest.Mirrors

variable {ρ : NodeId → NodeId} {rest h f : Forest} {n target block : NodeId} {o : Options}
  {name : Text} {k : Resolver} {g : Group} {a : Aggregator}

/-! ### Resolving -/

theorem isScope (hm : Mirrors ρ rest h f) (o : Options) (n : NodeId) :
    Scope.isScope o f (ρ n) = Scope.isScope o h n := by
  rw [Scope.isScope, Scope.isScope, Scope.isWrapper, Scope.isWrapper, hm.holds, hm.holds]

theorem climb (hm : Mirrors ρ rest h f) (o : Options) (above : List NodeId) :
    ∀ anchor, Scope.climb o f (anchor.map ρ) (above.map ρ)
      = ((Scope.climb o h anchor above).map (Option.map ρ)).mapError (Obstacle.rename ρ) := by
  induction above with
  | nil => exact fun _ => rfl
  | cons n above ih =>
    intro anchor
    have hw : Scope.isWrapper o f (ρ n) = Scope.isWrapper o h n := hm.holds _ n
    rw [List.map_cons, Scope.climb.eq_def, Scope.climb.eq_def o h]
    dsimp only
    rw [hm.isScope, hw]
    by_cases hs : Scope.isScope o h n = true
    · rw [if_pos hs, if_pos hs]
      cases anchor with
      | none => exact ih (some n)
      | some b =>
        rw [Option.map_some]
        dsimp only
        by_cases hn : Scope.isWrapper o h n = true
        · rw [if_pos hn, if_pos hn]
          rfl
        · rw [if_neg hn, if_neg hn]
          exact ih (some b)
    · rw [if_neg hs, if_neg hs]
      rfl

/-- **Corresponding blocks belong to corresponding places.** -/
theorem locate (hm : Mirrors ρ rest h f) (hl : h.Linked) (o : Options) (name : Text)
    (block : NodeId) :
    Scope.locate o name f (ρ block)
      = ((Scope.locate o name h block).map (Place.rename ρ)).mapError (Obstacle.rename ρ) := by
  rw [Scope.locate, hm.ancestors hl, Scope.locate]
  cases h.ancestors block with
  | nil => rfl
  | cons n above =>
    have hf : Scope.isForeign o name f (ρ n) = Scope.isForeign o name h n := by
      rw [Scope.isForeign, hm.isScope, hm.atRule?, Scope.isForeign]
    rw [List.map_cons, Scope.locateBelow, Scope.locateBelow, hf]
    split_ifs
    · have hc := hm.climb o above none
      rw [Option.map_none] at hc
      rw [hc]
      cases Scope.climb o h none above <;> rfl
    · have hc := hm.climb o (n :: above) none
      rw [Option.map_none, List.map_cons] at hc
      rw [hc]
      cases Scope.climb o h none (n :: above) <;> rfl

theorem ofNode (hm : Mirrors ρ rest h f) (n : NodeId) :
    NestedWrapper.ofNode f (ρ n) = NestedWrapper.ofNode h n := by
  rw [NestedWrapper.ofNode, hm.atRule?, hm.content?, hm.source?, NestedWrapper.ofNode]

theorem enclose (hm : Mirrors ρ rest h f) (block : NodeId) (rule : AtRule) :
    Mirrors ρ rest (Resolver.enclose h block rule) (Resolver.enclose f (ρ block) rule) := by
  have hnew : ∀ c, Mirrors ρ rest (h.create c).2 (f.create c).2 := fun c => by
    rw [create_eq_plant, create_eq_plant]
    exact hm.plant _
  set c := Content.atRule { rule with hasBlock := true } with hc
  obtain ⟨hcs, hd⟩ := (hnew c).detachChildren block
  have hall := (appendAll (p := h.size) ((h.create c).2.detachChildren block).1 hd).append block
    h.size
  rw [← hcs, hm.next_zero] at hall
  exact hall

theorem prepare (hm : Mirrors ρ rest h f) (block : NodeId) (place : Place) :
    Mirrors ρ rest (Resolver.prepare h block place)
      (Resolver.prepare f (ρ block) (place.rename ρ)) := by
  have hrule : (place.rename ρ).foreign.bind f.atRule? = place.foreign.bind h.atRule? := by
    rw [Place.rename]
    cases place.foreign with
    | none => rfl
    | some n => exact hm.atRule? n
  simp only [Resolver.prepare, hrule]
  cases place.foreign.bind h.atRule? with
  | none => exact hm
  | some rule => exact hm.enclose block rule

theorem assign (hm : Mirrors ρ rest h f) (k : Resolver) (place : Place) :
    (k.rename ρ).assign f (place.rename ρ)
      = ((k.assign h place).1.rename ρ, (k.assign h place).2.rename ρ) := by
  rw [Resolver.assign, Place.rename, Resolver.assign]
  cases place.anchor with
  | none => rfl
  | some anchor =>
    rw [Option.map_some]
    dsimp only
    rw [hm.holds, Resolver.groupId_rename hm.inj]
    split_ifs <;> rfl

/-- **Corresponding blocks are resolved alike.** -/
theorem resolve (hm : Mirrors ρ rest h f) (hl : h.Linked) (o : Options) (name : Text)
    (k : Resolver) (block : NodeId) :
    match k.resolve o name h block with
    | .error e => ∃ f', Mirrors ρ rest e.forest f' ∧
        (k.rename ρ).resolve o name f (ρ block) = .error ⟨e.wrapper, e.resolver.rename ρ, f'⟩
    | .ok (x, k', h') => ∃ f', Mirrors ρ rest h' f' ∧
        (k.rename ρ).resolve o name f (ρ block) = .ok (x.rename ρ, k'.rename ρ, f') := by
  rw [Resolver.resolve, Resolver.resolve, hm.locate hl]
  cases Scope.locate o name h block with
  | error e =>
    cases e with
    | tooDeep => exact ⟨f, hm, rfl⟩
    | nested w =>
      refine ⟨f, hm, ?_⟩
      simp only [Except.map, Except.mapError, Obstacle.rename, hm.ofNode]
  | ok place =>
    refine ⟨_, hm.prepare block place, ?_⟩
    simp only [Except.map, Except.mapError, hm.assign]
    rfl

/-! ### Merging -/

theorem queryOf (hm : Mirrors ρ rest h f) (block : NodeId) :
    Group.queryOf f (ρ block) = Group.queryOf h block := by
  rw [Group.queryOf, hm.atRule?, Group.queryOf]

theorem appendCopies (ns : List NodeId) :
    ∀ {h f : Forest}, Mirrors ρ rest h f → h.Linked → target < h.size →
      Mirrors ρ rest (Group.appendCopies h target ns)
        (Group.appendCopies f (ρ target) (ns.map ρ)) := by
  induction ns with
  | nil => exact fun hm _ _ => hm
  | cons n ns ih =>
    intro h f hm hl ht
    have hstep := hl.appendCopy ht n
    obtain ⟨hid, hc⟩ := hm.copy hl n
    have ha := hc.append target (h.copy n).1
    rw [← hid] at ha
    rw [List.map_cons, Group.appendCopies, Group.appendCopies]
    exact ih ha hstep.linked (ht.trans_le hstep.size_le)

/-- **Corresponding blocks are merged into corresponding groups.** -/
theorem absorb (hm : Mirrors ρ rest h f) (hl : h.Linked) (hg : ∀ e ∈ g.merged, e.2 < h.size)
    (block : NodeId) :
    ((g.rename ρ).absorb f (ρ block)).1 = (g.absorb h block).1.rename ρ ∧
      Mirrors ρ rest (g.absorb h block).2 ((g.rename ρ).absorb f (ρ block)).2 := by
  have hfind : Registry.find? (g.rename ρ).merged (Group.queryOf f (ρ block))
      = (Registry.find? g.merged (Group.queryOf h block)).map ρ := by
    rw [hm.queryOf]
    exact Registry.find?_mapValues ρ g.merged _
  rw [Group.absorb, Group.absorb, hfind]
  cases hmerged : Registry.find? g.merged (Group.queryOf h block) with
  | some target =>
    refine ⟨rfl, ?_⟩
    have hc := appendCopies (h.children block) hm hl (hg _ (Registry.mem_of_find? hmerged))
    rw [← hm.children] at hc
    exact hc.detach block
  | none =>
    obtain ⟨hid, hc⟩ := hm.copy hl block
    refine ⟨?_, hc.detach block⟩
    simp only [Option.map_none, Group.rename, hid, hm.queryOf, Registry.mapValues,
      List.map_append, List.map_cons, List.map_nil]

theorem aggregate (hm : Mirrors ρ rest h f) (hl : h.Linked)
    (ha : ∀ g ∈ a.groups, ∀ e ∈ g.merged, e.2 < h.size) (id : GroupId) (anchor : NodeId)
    (kind : GroupKind) (block : NodeId) :
    ((a.rename ρ).aggregate f id (ρ anchor) kind (ρ block)).1
        = (a.aggregate h id anchor kind block).1.rename ρ ∧
      Mirrors ρ rest (a.aggregate h id anchor kind block).2
        ((a.rename ρ).aggregate f id (ρ anchor) kind (ρ block)).2 := by
  have hgroup : ((a.rename ρ).group? id).getD ⟨id, ρ anchor, kind, []⟩
      = ((a.group? id).getD ⟨id, anchor, kind, []⟩).rename ρ := by
    rw [Aggregator.group?_rename]
    cases a.group? id <;> rfl
  have hmerged : ∀ e ∈ ((a.group? id).getD ⟨id, anchor, kind, []⟩).merged, e.2 < h.size := by
    intro e he
    rcases Aggregator.getD_group? a id anchor kind with hg | hg
    · exact ha _ hg e he
    · rw [hg] at he
      cases he
  obtain ⟨hg, hf⟩ := hm.absorb hl hmerged block
  rw [← hgroup] at hg hf
  refine ⟨?_, hf⟩
  calc ((a.rename ρ).aggregate f id (ρ anchor) kind (ρ block)).1
      = ⟨Aggregator.place ((((a.rename ρ).group? id).getD ⟨id, ρ anchor, kind, []⟩).absorb f
          (ρ block)).1 (a.rename ρ).groups, a.captured + 1⟩ := rfl
    _ = (a.aggregate h id anchor kind block).1.rename ρ := by
      rw [hg, Aggregator.rename, Aggregator.place_rename]
      rfl

end Forest.Mirrors

open Grouping (capture captureAll mediaName sortedBlocks)

/-! ### Taking blocks in -/

namespace Capture

/-- A run that goes on with a block that has been resolved. -/
def proceed (root block : NodeId) (s : Capture) (x : Resolution) (k : Resolver) (f : Forest) :
    Capture :=
  match x with
  | .tooDeep =>
    { s with
      forest := f
      resolver := k
      events := s.events ++ [.leftInPlace (((f.content? block).map Content.describe).getD [])]
      leftInPlace := s.leftInPlace + 1 }
  | .rootGroup =>
    let (a, f) := s.aggregator.aggregate f Resolver.rootGroupId root .root block
    { s with forest := f, resolver := k, aggregator := a }
  | .wrapperGroup id anchor =>
    let (a, f) := s.aggregator.aggregate f id anchor .wrapper block
    { s with forest := f, resolver := k, aggregator := a }

/-- The run that ends at a block that is refused. -/
def refuse (s : Capture) (e : Resolver.Refusal) : NestedWrapper × Capture :=
  (e.wrapper, { s with forest := e.forest, resolver := e.resolver })

theorem capture_eq_proceed (o : Options) (root block : NodeId) (s : Capture) :
    Grouping.capture o root s block
      = ((s.resolver.resolve o mediaName s.forest block).map
          fun r => s.proceed root block r.1 r.2.1 r.2.2).mapError s.refuse := by
  rw [Grouping.capture]
  cases s.resolver.resolve o mediaName s.forest block with
  | error e => rfl
  | ok r =>
    obtain ⟨x, k, f⟩ := r
    cases x <;> rfl

/-- **A run that mirrors another one** while it takes blocks in. -/
structure Mirrors (ρ : NodeId → NodeId) (rest : Forest) (s s' : Capture) : Prop where
  forest : Forest.Mirrors ρ rest s.forest s'.forest
  resolver : s'.resolver = s.resolver.rename ρ
  aggregator : s'.aggregator = s.aggregator.rename ρ
  events : s'.events = s.events
  leftInPlace : s'.leftInPlace = s.leftInPlace

namespace Mirrors

variable {ρ : NodeId → NodeId} {rest h f : Forest} {s s' : Capture} {o : Options}
  {root block : NodeId}

theorem proceed (hm : Mirrors ρ rest s s') (hf : Forest.Mirrors ρ rest h f) (hl : h.Linked)
    (ha : ∀ g ∈ s.aggregator.groups, ∀ e ∈ g.merged, e.2 < h.size) (x : Resolution)
    (k : Resolver) :
    Mirrors ρ rest (s.proceed root block x k h)
      (s'.proceed (ρ root) (ρ block) (x.rename ρ) (k.rename ρ) f) := by
  cases x with
  | tooDeep =>
    refine ⟨hf, rfl, hm.aggregator, ?_, congrArg (· + 1) hm.leftInPlace⟩
    simp only [Capture.proceed, Resolution.rename, hm.events, hf.content?]
  | rootGroup =>
    obtain ⟨hagg, hf'⟩ := hf.aggregate hl ha Resolver.rootGroupId root .root block
    rw [← hm.aggregator] at hagg hf'
    exact ⟨hf', rfl, hagg, hm.events, hm.leftInPlace⟩
  | wrapperGroup id anchor =>
    obtain ⟨hagg, hf'⟩ := hf.aggregate hl ha id anchor .wrapper block
    rw [← hm.aggregator] at hagg hf'
    exact ⟨hf', rfl, hagg, hm.events, hm.leftInPlace⟩

/-- **Corresponding blocks are taken in, or left, or refused alike.** -/
theorem capture (o : Options) (root : NodeId) (hm : Mirrors ρ rest s s') (hl : s.forest.Linked)
    (ha : ∀ g ∈ s.aggregator.groups, ∀ e ∈ g.merged, e.2 < s.forest.size)
    (hb : block < s.forest.size) :
    match Grouping.capture o root s block with
    | .error (e, s₁) => ∃ s₁', Mirrors ρ rest s₁ s₁' ∧
        Grouping.capture o (ρ root) s' (ρ block) = .error (e, s₁')
    | .ok s₁ => ∃ s₁', Mirrors ρ rest s₁ s₁' ∧
        Grouping.capture o (ρ root) s' (ρ block) = .ok s₁' := by
  have hresolve := hm.forest.resolve hl o mediaName s.resolver block
  rw [← hm.resolver] at hresolve
  rw [capture_eq_proceed, capture_eq_proceed]
  cases hr : s.resolver.resolve o mediaName s.forest block with
  | error e =>
    rw [hr] at hresolve
    obtain ⟨f, hf, he⟩ := hresolve
    exact ⟨{ s' with forest := f, resolver := e.resolver.rename ρ },
      ⟨hf, rfl, hm.aggregator, hm.events, hm.leftInPlace⟩,
      congrArg (Except.mapError s'.refuse) (congrArg (Except.map _) he)⟩
  | ok r =>
    obtain ⟨x, k, h⟩ := r
    rw [hr] at hresolve
    obtain ⟨f, hf, he⟩ := hresolve
    have hlinked := hl.resolve hb hr
    exact ⟨_, hm.proceed hf hlinked.linked
      (fun g hg e he => (ha g hg e he).trans_le hlinked.size_le) x k,
      congrArg (Except.mapError s'.refuse) (congrArg (Except.map _) he)⟩

/-- **All blocks** are, up to the first nested wrapper. -/
theorem captureAll (blocks : List NodeId) :
    ∀ {apart : NodeId → Prop} {s s' : Capture}, Mirrors ρ rest s s' →
      Gathered apart s.aggregator s.forest → Present apart s.forest root →
      (∀ b ∈ blocks, Present apart s.forest b) →
      Mirrors ρ rest (Grouping.captureAll o root s blocks).1
          (Grouping.captureAll o (ρ root) s' (blocks.map ρ)).1 ∧
        (Grouping.captureAll o (ρ root) s' (blocks.map ρ)).2
          = (Grouping.captureAll o root s blocks).2 := by
  induction blocks with
  | nil => exact fun hm _ _ _ => ⟨hm, rfl⟩
  | cons block blocks ih =>
    intro apart s s' hm hg hroot hbs
    rw [List.forall_mem_cons] at hbs
    have hone := hm.capture o root hg.linked
      (fun g hmem e he => hg.lt_size (hg.merged g hmem e he)) hbs.1.lt_size
    rw [List.map_cons, Grouping.captureAll, Grouping.captureAll]
    cases hc : Grouping.capture o root s block with
    | error ended =>
      rw [hc] at hone
      obtain ⟨s₁', hm₁, hc'⟩ := hone
      rw [hc']
      exact ⟨hm₁, rfl⟩
    | ok s₁ =>
      rw [hc] at hone
      obtain ⟨s₁', hm₁, hc'⟩ := hone
      obtain ⟨apart', hg', he⟩ := Grouping.gathered_of_capture hg hroot hbs.1 hc
      rw [hc']
      exact ih hm₁ hg' (he.present hroot) fun b hb => he.present (hbs.2 b hb)

end Mirrors
end Capture

/-! ### Runs -/

namespace Grouping

variable {ρ : NodeId → NodeId} {rest h f : Forest} {o : Options} {root : NodeId}

theorem sortedBlocks_rename (o : Options) (g : Group) :
    sortedBlocks o (g.rename ρ) = (sortedBlocks o g).map ρ := by
  rw [sortedBlocks, Group.rename, Registry.keys_mapValues, sortedBlocks, List.map_filterMap]
  exact List.filterMap_congr fun k _ => Registry.find?_mapValues ρ g.merged k

theorem emitted_rename (o : Options) (gs : List Group) :
    emitted o (gs.map (Group.rename ρ)) = emitted o gs := by
  simp only [emitted, List.flatMap_map, sortedBlocks_rename, ← List.map_flatMap, List.length_map]

end Grouping

namespace Forest.Mirrors

open Grouping (annotation? captured emit emitGroup emitted finished setAside transform)

variable {ρ : NodeId → NodeId} {rest h f : Forest} {o : Options} {root : NodeId}

theorem emitGroup (hm : Mirrors ρ rest h f) (o : Options) (g : Group) :
    Mirrors ρ rest (Grouping.emitGroup o h g) (Grouping.emitGroup o f (g.rename ρ)) := by
  have hall := appendAll (p := g.anchor) (sortedBlocks o g) hm
  rw [← Grouping.sortedBlocks_rename] at hall
  have hkind : (g.rename ρ).kind = g.kind := rfl
  simp only [Grouping.emitGroup, hkind]
  cases g.kind with
  | root => exact hall
  | wrapper => exact hall.unwrap g.anchor

/-- **The groups are put back alike.** -/
theorem emit (gs : List Group) :
    ∀ {h f : Forest}, Mirrors ρ rest h f →
      Mirrors ρ rest (Grouping.emit o h gs) (Grouping.emit o f (gs.map (Group.rename ρ))) := by
  induction gs with
  | nil => exact fun hm => hm
  | cons g gs ih => exact fun hm => ih (hm.emitGroup o g)

theorem unwrapAll (ns : List NodeId) :
    ∀ {h f : Forest}, Mirrors ρ rest h f →
      Mirrors ρ rest (ns.foldl Forest.unwrap h) ((ns.map ρ).foldl Forest.unwrap f) := by
  induction ns with
  | nil => exact fun hm => hm
  | cons n ns ih => exact fun hm => ih (hm.unwrap n)

theorem annotation? (hm : Mirrors ρ rest h f) (root : NodeId) :
    Grouping.annotation? f (ρ root) = (Grouping.annotation? h root).map ρ := by
  have htest : f.holds Grouping.isAnnotation ∘ ρ = h.holds Grouping.isAnnotation :=
    funext fun n => hm.holds _ n
  rw [Grouping.annotation?, hm.children, List.getLast?_map, Option.filter_map, htest,
    Grouping.annotation?]

theorem setAside (hm : Mirrors ρ rest h f) (root : NodeId) :
    Mirrors ρ rest (Grouping.setAside h root) (Grouping.setAside f (ρ root)) := by
  rw [Grouping.setAside, Grouping.setAside, hm.annotation?]
  cases Grouping.annotation? h root with
  | none => exact hm
  | some comment => exact hm.detach comment

/-- **The same blocks are found**, and they are taken alike. -/
theorem captured (hm : Mirrors ρ rest h f) (hl : h.Linked) (hr : root < h.size) (o : Options) :
    (Grouping.setAside f (ρ root)).atRulesNamed mediaName (ρ root)
        = ((Grouping.setAside h root).atRulesNamed mediaName root).map ρ ∧
      Capture.Mirrors ρ rest (Grouping.captured o h root).1 (Grouping.captured o f (ρ root)).1 ∧
      (Grouping.captured o f (ρ root)).2 = (Grouping.captured o h root).2 := by
  obtain ⟨apart, hapart, hroot, -, hblocks⟩ := Grouping.apart_setAside hl hr
  have hset := hm.setAside root
  have hfound : (Grouping.setAside f (ρ root)).atRulesNamed mediaName (ρ root)
      = ((Grouping.setAside h root).atRulesNamed mediaName root).map ρ :=
    hset.collect hapart.linked _ root
  refine ⟨hfound, ?_⟩
  have hstart : Capture.Mirrors ρ rest ⟨Grouping.setAside h root, .start, .start, [], 0⟩
      ⟨Grouping.setAside f (ρ root), .start, .start, [], 0⟩ := ⟨hset, rfl, rfl, rfl, rfl⟩
  have hall := Capture.Mirrors.captureAll (o := o) _ hstart
    (Grouping.gathered_start hapart) hroot hblocks
  rw [← hfound] at hall
  exact hall

/-- **The same wrappers are left**, and they are dissolved alike. -/
theorem finished {s s' : Capture} (hs : Capture.Mirrors ρ rest s s')
    (hl : (Grouping.emit o s.forest s.aggregator.groups).Linked) (root : NodeId) :
    (Grouping.emit o s'.forest s'.aggregator.groups).collect o.isWrapper (ρ root)
        = ((Grouping.emit o s.forest s.aggregator.groups).collect o.isWrapper root).map ρ ∧
      Mirrors ρ rest (Grouping.finished o root s) (Grouping.finished o (ρ root) s') := by
  have hemit : Mirrors ρ rest (Grouping.emit o s.forest s.aggregator.groups)
      (Grouping.emit o s'.forest s'.aggregator.groups) := by
    rw [hs.aggregator]
    exact emit s.aggregator.groups hs.forest
  have hleft := hemit.collect hl o.isWrapper root
  refine ⟨hleft, ?_⟩
  rw [Grouping.finished, Grouping.finished, hleft]
  exact unwrapAll _ hemit

/-- **A run in a mirror** ends as the run that it mirrors, reports the same and leaves a
mirror. -/
theorem transform (hm : Mirrors ρ rest h f) (hl : h.Linked) (hr : root < h.size) (o : Options) :
    (Grouping.transform o f (ρ root)).failure = (Grouping.transform o h root).failure ∧
      (Grouping.transform o f (ρ root)).events = (Grouping.transform o h root).events ∧
      Mirrors ρ rest (Grouping.transform o h root).forest
        (Grouping.transform o f (ρ root)).forest := by
  obtain ⟨hblocks, hs, hfail⟩ := hm.captured hl hr o
  obtain ⟨hemit, -⟩ := Grouping.apart_finished hl hr o
  obtain ⟨hleft, hfinished⟩ := finished hs hemit root
  have hann := hm.annotation? root
  have hclosing : Grouping.closing o f (ρ root) = Grouping.closing o h root := by
    have hemitted := Grouping.emitted_rename (ρ := ρ) o
      (Grouping.captured o h root).1.aggregator.groups
    rw [Grouping.closing, Grouping.summary, hblocks, hleft, hs.leftInPlace, hs.aggregator, hann,
      List.length_map, List.length_map, Option.isSome_map, Grouping.closing, Grouping.summary,
      ← hemitted]
    rfl
  refine ⟨?_, ?_, ?_⟩
  · rw [(Grouping.transform_eq o f _).1, (Grouping.transform_eq o h _).1, hfail]
  · rw [Grouping.events_eq, Grouping.events_eq, hs.events, hfail, hclosing]
  · rw [(Grouping.transform_eq o f _).2, (Grouping.transform_eq o h _).2, hfail, hann]
    cases (Grouping.captured o h root).2 with
    | some e => exact hs.forest
    | none =>
      cases Grouping.annotation? h root with
      | none => exact hfinished
      | some comment => exact hfinished.append root comment

end Forest.Mirrors
end MediaGrouping
