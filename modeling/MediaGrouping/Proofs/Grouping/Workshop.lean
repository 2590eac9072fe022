/-
# Working on a forest

A workshop is a forest together with the aggregators that take blocks in from it. It
begins without nodes and changes in steps (`Workshop.Step`): an operation on the forest
(`Forest.Operation`), a new aggregator, or a block taken in by one. Nothing is asked of a
step but that its nodes are there, and that nothing is hung under itself or under what is
below it. Every step keeps the forest linked, and the merged blocks of the aggregators in
it (`Workshop.Sound.step`), and so the links are right after every step of every run.
-/

import MediaGrouping.Sheet.Parser
import MediaGrouping.Proofs.Grouping.Apart

namespace MediaGrouping

open Relation (ReflTransGen TransGen)

/-- **The operations on a forest.** A node that nobody holds any more is not taken away
here. In letting it go its children lose their parent, which is what `detachChildren` does. -/
inductive Forest.Operation (f : Forest) : Forest → Prop
  | create (content : Content) : f.Operation (f.create content).2
  | parse {css : Text} {t : Tree} (ht : Tree.parse css = .ok t) : f.Operation (f.plant t).2
  | copy {n : NodeId} (hn : n < f.size) : f.Operation (f.copy n).2
  | append {p c : NodeId} (hp : p < f.size) (hc : c < f.size) (hw : ¬ f.Within p c) :
      f.Operation (f.append p c)
  | insert {p c : NodeId} (index : Nat) (hp : p < f.size) (hc : c < f.size)
      (hw : ¬ f.Within p c) : f.Operation (f.insert p index c)
  | insertBefore {n : NodeId} {cs : List NodeId} (hcs : ∀ c ∈ cs, c < f.size)
      (hw : ∀ p, f.parent? n = some p → ∀ c ∈ cs, ¬ f.Within p c) :
      f.Operation (f.insertBefore n cs)
  | removeAt {p c : NodeId} {index : Nat} {f' : Forest}
      (hr : f.removeAt? p index = some (c, f')) : f.Operation f'
  | detach (n : NodeId) : f.Operation (f.detach n)
  | detachChildren (n : NodeId) : f.Operation (f.detachChildren n).2
  | unwrap (n : NodeId) : f.Operation (f.unwrap n)
  | resolve {o : Options} {name : Text} {k k' : Resolver} {block : NodeId} {x : Resolution}
      {f' : Forest} (hb : block < f.size) (hr : k.resolve o name f block = .ok (x, k', f')) :
      f.Operation f'
  | refuse {o : Options} {name : Text} {k : Resolver} {block : NodeId} {e : Resolver.Refusal}
      (hr : k.resolve o name f block = .error e) : f.Operation e.forest
  | transform {root : NodeId} (o : Options) (hr : root < f.size) :
      f.Operation (Grouping.transform o f root).forest

/-- A forest that is worked on, with the aggregators in use. -/
structure Workshop where
  forest : Forest
  aggregators : List Aggregator

/-- **The steps of work.** Any aggregator may take in any block, for any group. -/
inductive Workshop.Step : Workshop → Workshop → Prop
  | operate {f f' : Forest} {as : List Aggregator} (ho : f.Operation f') : Step ⟨f, as⟩ ⟨f', as⟩
  | start {f : Forest} {as : List Aggregator} : Step ⟨f, as⟩ ⟨f, .start :: as⟩
  | aggregate {f : Forest} {a : Aggregator} {before after : List Aggregator} (id : GroupId)
      (anchor : NodeId) (kind : GroupKind) (block : NodeId) (ha : anchor < f.size)
      (hb : block < f.size) :
      Step ⟨f, before ++ a :: after⟩ ⟨(a.aggregate f id anchor kind block).2,
        before ++ (a.aggregate f id anchor kind block).1 :: after⟩

variable {f f' : Forest}

namespace Forest

/-- **Every operation keeps a forest linked**, and its nodes in it. -/
theorem Linked.operation (h : f.Linked) (ho : f.Operation f') : f'.Linked ∧ f.size ≤ f'.size := by
  have hof : ∀ {f' : Forest} {r}, Relinked f f' r → f'.Linked ∧ f.size ≤ f'.size :=
    fun hr => ⟨hr.linked, hr.size_le⟩
  -- where nodes may have come to be does not matter here
  let anywhere : NodeId → NodeId → Prop := fun _ _ => True
  cases ho with
  | create content => exact hof (h.create (r := anywhere) content).1
  | parse _ => exact hof (h.plant _).1
  | copy _ => exact hof (h.plant _).1
  | append hp hc hw => exact hof (h.append hp hc hw)
  | insert index hp hc hw => exact hof (h.insert hp hc hw index)
  | insertBefore hcs hw => exact hof (h.insertBefore hcs hw)
  | removeAt hr => exact h.removeAt?_eq hr ▸ hof (h.detach (r := anywhere) _).1
  | detach n => exact hof (h.detach (r := anywhere) n).1
  | detachChildren n => exact hof (h.detachChildren (r := anywhere) n).1
  | unwrap n => exact hof (h.unwrap n)
  | resolve hb hr => exact hof (h.resolve hb hr)
  | refuse hr => exact (Resolver.unchanged_of_refusal hr).2.symm ▸ hof (r := anywhere) h.refl
  | transform o hr => exact Grouping.linked_transform h hr o

end Forest

namespace Aggregator

variable {a : Aggregator}

/-- Whether the merged blocks of an aggregator are nodes of a forest. -/
def Housed (a : Aggregator) (f : Forest) : Prop := ∀ g ∈ a.groups, ∀ e ∈ g.merged, e.2 < f.size

theorem housed_start (f : Forest) : start.Housed f := List.forall_mem_nil _

theorem Housed.mono (h : a.Housed f) (hsize : f.size ≤ f'.size) : a.Housed f' :=
  fun g hg e he => (h g hg e he).trans_le hsize

/-- **Taking a block in keeps the forest linked**, with the merged blocks in it. -/
theorem Housed.aggregate (h : a.Housed f) (hl : f.Linked) (id : GroupId) (anchor : NodeId)
    (kind : GroupKind) (block : NodeId) :
    (a.aggregate f id anchor kind block).2.Linked ∧
      f.size ≤ (a.aggregate f id anchor kind block).2.size ∧
      (a.aggregate f id anchor kind block).1.Housed (a.aggregate f id anchor kind block).2 := by
  have hr : Forest.Relinked f (a.aggregate f id anchor kind block).2 fun n _ => f.size ≤ n :=
    relinked_aggregate hl h
  refine ⟨hr.linked, hr.size_le, fun g hg e he => ?_⟩
  rcases (mem_groups_aggregate hg).2 e he with ⟨k, hk, hek⟩ | ⟨hnew, hsize⟩
  · exact (h k hk e hek).trans_le hr.size_le
  · exact hnew ▸ hsize

end Aggregator

namespace Workshop

variable {w w' : Workshop}

/-- The workshop before the first node. -/
def empty : Workshop := ⟨.empty, []⟩

/-- What work keeps: a linked forest, with the merged blocks of all aggregators in it. -/
structure Sound (w : Workshop) : Prop where
  linked : w.forest.Linked
  housed : ∀ a ∈ w.aggregators, a.Housed w.forest

theorem sound_empty : empty.Sound := ⟨Forest.linked_empty, List.forall_mem_nil _⟩

/-- **Every step keeps a workshop sound.** -/
theorem Sound.step (h : w.Sound) (hs : w.Step w') : w'.Sound := by
  cases hs with
  | operate ho =>
    obtain ⟨hl, hsize⟩ := h.linked.operation ho
    exact ⟨hl, fun a ha => (h.housed a ha).mono hsize⟩
  | start => exact ⟨h.linked, List.forall_mem_cons.2 ⟨Aggregator.housed_start _, h.housed⟩⟩
  | aggregate id anchor kind block =>
    obtain ⟨hl, hh⟩ := h
    rw [List.forall_mem_append, List.forall_mem_cons] at hh
    obtain ⟨hl', hsize, hnew⟩ := hh.2.1.aggregate hl id anchor kind block
    refine ⟨hl', ?_⟩
    rw [List.forall_mem_append, List.forall_mem_cons]
    exact ⟨fun b hb => (hh.1 b hb).mono hsize, hnew, fun b hb => (hh.2.2 b hb).mono hsize⟩

/-- **Every run keeps a workshop sound.** -/
theorem Sound.run (h : w.Sound) (hr : ReflTransGen Step w w') : w'.Sound := by
  induction hr with
  | refl => exact h
  | tail _ hs ih => exact ih.step hs

/-- **The links of the forest are right after every step of every run**: a node names
another as its parent just if it is one of its children, it is so once and of no other
node, and no node is its own ancestor. -/
theorem links_of_run (h : ReflTransGen Step empty w) :
    (∀ c n, w.forest.parent? c = some n ↔ c ∈ w.forest.children n) ∧
    (∀ c n, c ∈ w.forest.children n →
      (w.forest.children n).count c = 1 ∧ ∀ m, c ∈ w.forest.children m → m = n) ∧
    ∀ n, ¬ TransGen w.forest.Under n n := by
  have hw := sound_empty.run h
  refine ⟨fun c n => hw.linked.parent_iff, fun c n hc => ⟨?_, fun m hm => ?_⟩, hw.linked.acyclic⟩
  · exact List.count_eq_one_of_mem (hw.linked.nodup n) hc
  · exact hw.linked.eq_of_mem_children hm hc

theorem links_of_run_media : ∃ t, Tree.parse "@media print{a{}}".toList = .ok t ∧
    let taken := Aggregator.start.aggregate (Forest.empty.plant t).2 1 0 .root 1
    let w : Workshop := ⟨(Grouping.transform {} (taken.2.append 0 3) 0).forest, [taken.1]⟩
    ReflTransGen Step empty w ∧
    (∀ c n, w.forest.parent? c = some n ↔ c ∈ w.forest.children n) ∧
    (∀ c n, c ∈ w.forest.children n →
      (w.forest.children n).count c = 1 ∧ ∀ m, c ∈ w.forest.children m → m = n) ∧
    ∀ n, ¬ TransGen w.forest.Under n n := by
  have ht : Tree.parse "@media print{a{}}".toList = .ok (.node .root none
      [.node (.atRule ⟨Grouping.mediaName, "print".toList, true⟩) (some ⟨1, 1⟩)
        [.node (.rule "a".toList) (some ⟨1, 14⟩) []]]) := rfl
  refine ⟨_, ht, ?_⟩
  intro taken w
  have hread : Step empty ⟨_, []⟩ := .operate (.parse ht)
  have htake : Step ⟨_, [.start]⟩ ⟨taken.2, [taken.1]⟩ :=
    @Step.aggregate _ .start [] [] 1 0 .root 1 (by decide) (by decide)
  -- the copy that was taken is put back into the sheet, which has no parent
  have hback : Step ⟨taken.2, [taken.1]⟩ ⟨taken.2.append 0 3, [taken.1]⟩ :=
    .operate (.append (by decide) (by decide) fun hw =>
      absurd (Forest.eq_of_within (by decide) hw) (by decide))
  have hgroup : Step ⟨taken.2.append 0 3, [taken.1]⟩ w := .operate (.transform {} (by decide))
  have hrun : ReflTransGen Step empty w :=
    ((((ReflTransGen.single hread).tail .start).tail htake).tail hback).tail hgroup
  exact ⟨hrun, links_of_run hrun⟩

end Workshop
end MediaGrouping
