/-
# Going back to a copy

A copy of a sheet is apart from it: whatever runs are made on the sheet, and however they
end, the copy stays as it was and shares no node with the sheet or with anything that was
taken out of it or made meanwhile. The same runs on the copy then end in the same ways,
report the same, and leave the same trees (`Grouping.independent_of_copy`).

Both the sheet and the copy mirror the sheet planted in a forest of its own
(`Forest.mirrors_planted`). The runs on the sheet mirror those in there, and leave alone
the numbers that the mirror does not use, the copy's among them.
-/

import MediaGrouping.Sheet.Parser
import MediaGrouping.Proofs.Grouping.Mirrored

namespace MediaGrouping

theorem Tree.size_pos (t : Tree) : 0 < t.size := by
  cases t
  rw [size]
  omega

theorem Entry.rename_congr {ρ ρ' : NodeId → NodeId} {e : Entry}
    (hp : ∀ p, e.parent = some p → ρ p = ρ' p) (hc : ∀ c ∈ e.children, ρ c = ρ' c) :
    e.rename ρ = e.rename ρ' := by
  rw [rename, rename, Option.map_congr hp, List.map_congr_left hc]

namespace Forest

variable {f : Forest} {t : Tree} {n : NodeId} {size first next : Nat}

/-- The numbers of a tree of `size` nodes that is planted from `first` on, and the numbers
from `next` on for all nodes after it. -/
def shift (size first next n : Nat) : Nat := if n < size then first + n else next + (n - size)

theorem shift_of_lt (h : n < size) : shift size first next n = first + n := if_pos h

theorem shift_injective (h : first + size ≤ next) : Function.Injective (shift size first next) := by
  intro n m hnm
  unfold shift at hnm
  split_ifs at hnm <;> omega

/-- The numbers between a tree and what comes after it are not used. -/
theorem shift_ne {m : Nat} (h : first + size ≤ m) (hm : m < next) :
    shift size first next n ≠ m := by
  unfold shift
  split_ifs <;> omega

/-- The tree in a forest of its own. -/
def alone (t : Tree) : Forest := (empty.plant t).2

theorem size_alone (t : Tree) : (alone t).size = t.size := by
  rw [alone, size_plant, show empty.size = 0 from rfl, Nat.zero_add]

theorem linked_alone (t : Tree) : (alone t).Linked := (linked_empty.plant t).1.linked

theorem get?_alone (t : Tree) (n : NodeId) : (alone t).get? n = (t.entries none 0)[n]? := by
  have h := get?_plant_add empty t n
  rwa [show empty.size = 0 from rfl, Nat.zero_add] at h

namespace Stands

/-- A tree that stands under successive numbers has its entries there. -/
theorem get?_planted (h : f.Stands (t.planted first)) (hn : n < t.size) :
    f.get? (first + n) = (t.entries none first)[n]? := by
  have hids := (Planted.sites_map_id [] (t.planted first)).trans (t.ids_planted first)
  have hlen : n < ((t.planted first).sites []).length := by
    have hlength := congrArg List.length hids
    rw [List.length_map, List.length_range'] at hlength
    exact hlength.symm ▸ hn
  have hentries : (t.entries none first)[n]? = some (((t.planted first).sites [])[n]).entry := by
    rw [← show _ = t.entries none first from t.entries_planted [] first, List.getElem?_map,
      List.getElem?_eq_getElem hlen]
    rfl
  have hid : (((t.planted first).sites [])[n]).id = first + n := by
    have hsome : (List.range' first t.size)[n]? = some (((t.planted first).sites [])[n]).id := by
      rw [← hids, List.getElem?_map, List.getElem?_eq_getElem hlen]
      rfl
    rw [List.getElem?_range' hn, Nat.one_mul] at hsome
    exact (Option.some.inj hsome).symm
  rw [hentries, ← hid]
  exact h.get? _ (List.getElem_mem hlen)

theorem add_size_le (h : f.Stands (t.planted first)) : first + t.size ≤ f.size := by
  have hpos := t.size_pos
  have hlast : first + (t.size - 1) ∈ (t.planted first).ids := by
    rw [Tree.ids_planted, List.mem_range'_1]
    omega
  have hlt : (first + (t.size - 1) : Nat) < f.size := h.lt_size hlast
  omega

/-- **A forest in which a tree stands mirrors the tree** in a forest of its own. -/
theorem mirrors (h : f.Stands (t.planted first)) :
    Mirrors (shift t.size first f.size) f (alone t) f where
  inj := shift_injective h.add_size_le
  size_le := by
    rw [size_alone]
    exact (Nat.le_add_left _ _).trans h.add_size_le
  next i := by
    rw [size_alone, shift, if_neg (Nat.not_lt.2 (Nat.le_add_right _ _)), Nat.add_sub_cancel_left]
  get? n := by
    -- the tree has the same entries in both forests, and neither has any at the numbers after it
    rcases lt_or_ge n t.size with hn | hn
    · have hlt : ∀ m, m < (alone t).size → first + m = shift t.size first f.size m :=
        fun m hm => (shift_of_lt (size_alone t ▸ hm)).symm
      have hentries : t.entries none first = (t.entries none 0).map (Entry.rename (first + ·)) :=
        Tree.entries_rename (p := none) fun i => by rw [Nat.zero_add]
      rw [shift_of_lt hn, h.get?_planted hn, hentries, List.getElem?_map, ← get?_alone]
      refine Option.map_congr fun e he => Entry.rename_congr (fun p hp => hlt p ?_) fun c hc => ?_
      · refine (linked_alone t).lt_size_of_parent (n := n) ?_
        rw [Forest.parent?, he]
        exact hp
      · refine hlt c ((linked_alone t).lt_size_of_mem (p := n) ?_)
        rwa [children_of_get? he]
    · have hnone : f.get? (shift t.size first f.size n) = none := by
        rw [shift, if_neg (Nat.not_lt.2 hn)]
        exact Array.getElem?_eq_none (Nat.le_add_right _ _)
      have halone : (alone t).get? n = none :=
        Array.getElem?_eq_none ((size_alone t).trans_le hn)
      rw [hnone, halone]
      rfl
  frame _ _ := rfl

end Stands

theorem Stands.within_planted_iff {n : Nat} (h : f.Stands (t.planted first)) (hl : f.Linked) :
    f.Within n first ↔ first ≤ n ∧ n < first + t.size := by
  have hwithin := h.within_iff (n := n) hl
  rwa [Tree.id_planted, Tree.ids_planted, List.mem_range'_1] at hwithin

end Forest

namespace Grouping

open Forest (Mirrors alone linked_alone shift shift_ne shift_of_lt size_alone)

variable {ρ : NodeId → NodeId} {rest h f : Forest} {root : NodeId}

/-- The outcomes of runs on a root, one after the other. -/
def runs (f : Forest) (root : NodeId) : List Options → List Outcome
  | [] => []
  | o :: os => transform o f root :: runs (transform o f root).forest root os

/-- The forest after runs on a root. -/
def after (f : Forest) (root : NodeId) : List Options → Forest
  | [] => f
  | o :: os => after (transform o f root).forest root os

/-- What can be told of a run without the numbers of nodes: how it ended, what it reported,
and the tree that it left at the root. -/
def report (root : NodeId) (x : Outcome) : Option NestedWrapper × List Event × Tree :=
  (x.failure, x.events, x.forest.tree root)

theorem linked_after (os : List Options) :
    ∀ {f : Forest}, f.Linked → root < f.size →
      (after f root os).Linked ∧ f.size ≤ (after f root os).size := by
  induction os with
  | nil => exact fun h _ => ⟨h, le_rfl⟩
  | cons o os ih =>
    intro f h hr
    obtain ⟨hl, hsize⟩ := linked_transform h hr o
    obtain ⟨hl', hsize'⟩ := ih hl (hr.trans_le hsize)
    exact ⟨hl', hsize.trans hsize'⟩

/-- **Runs in a mirror** are told apart from those that they mirror by numbers only. -/
theorem runs_of_mirrors (os : List Options) :
    ∀ {h f : Forest}, Mirrors ρ rest h f → h.Linked → root < h.size →
      (runs f (ρ root) os).map (report (ρ root)) = (runs h root os).map (report root) ∧
        Mirrors ρ rest (after h root os) (after f (ρ root) os) := by
  induction os with
  | nil => exact fun hm _ _ => ⟨rfl, hm⟩
  | cons o os ih =>
    intro h f hm hl hr
    obtain ⟨hfail, hevents, hm'⟩ := hm.transform hl hr o
    obtain ⟨hl', hsize⟩ := linked_transform hl hr o
    obtain ⟨hruns, hafter⟩ := ih hm' hl' (hr.trans_le hsize)
    refine ⟨?_, hafter⟩
    rw [runs, runs, List.map_cons, List.map_cons, hruns, report, report, hfail, hevents,
      hm'.tree hl']

/-- **A copy that a sheet can be taken back to**: runs on the root leave the copy alone, and
would have done the same to it. -/
structure Independent (f : Forest) (root copy : NodeId) (os : List Options) : Prop where
  /-- The copy has the tree that the root had. -/
  tree : (after f root os).tree copy = f.tree root
  /-- It has the nodes that it had, and they are what they were, with their links. -/
  within : ∀ n, (after f root os).Within n copy ↔ f.Within n copy
  get? : ∀ n, f.Within n copy → (after f root os).get? n = f.get? n
  /-- None of them was or is one of the root's, or was made by a run. -/
  apart : ∀ n, f.Within n root ∨ (after f root os).Within n root ∨ f.size ≤ n →
    ¬ (after f root os).Within n copy
  /-- The same runs on the copy have the same outcomes. -/
  runs : (runs (after f root os) copy os).map (report copy) = (runs f root os).map (report root)

section

variable {t : Tree} {first copy : Nat} (hl : f.Linked) (hr : f.Stands (t.planted first))
  (hc : f.Stands (t.planted copy)) (hlt : first + t.size ≤ copy) (os : List Options)

include hr

/-- **Runs on a tree** do as in a forest of its own, and leave what stands elsewhere. -/
theorem runs_alone :
    (runs f first os).map (report first) = (runs (alone t) 0 os).map (report 0) ∧
      Mirrors (shift t.size first f.size) f (after (alone t) 0 os) (after f first os) := by
  have hpos : 0 < (alone t).size := (size_alone t).symm ▸ t.size_pos
  have hruns := runs_of_mirrors os hr.mirrors (linked_alone t) hpos
  rwa [shift_of_lt t.size_pos] at hruns

include hl hc hlt

theorem get?_after {m : Nat} (hm : f.Within m copy) : (after f first os).get? m = f.get? m := by
  obtain ⟨hge, hm⟩ := (hc.within_planted_iff hl).1 hm
  exact (runs_alone hr os).2.frame m fun n =>
    shift_ne (hlt.trans hge) (hm.trans_le hc.add_size_le)

theorem stands_after : (after f first os).Stands (t.planted copy) := by
  refine hc.congr fun m hm => get?_after hl hr hc hlt os ?_
  rw [← hc.within_iff hl, Tree.id_planted] at hm
  exact hm

/-- The copy gets no node of the root's, nor one that a run makes. -/
theorem apart_after {n : Nat}
    (hn : f.Within n first ∨ (after f first os).Within n first ∨ f.size ≤ n) :
    ¬ (after f first os).Within n copy := by
  have hc' := stands_after hl hr hc hlt os
  have hbelow : first < copy := (Nat.lt_add_of_pos_right t.size_pos).trans_le hlt
  have hroot : first < f.size := (Nat.lt_add_of_pos_right t.size_pos).trans_le hr.add_size_le
  have hl' := (linked_after os hl hroot).1
  have hin {m : Nat} := hc'.within_planted_iff (n := m) hl'
  intro hw
  obtain ⟨hge, hle⟩ := hin.1 hw
  rcases hn with hn | hn | hn
  · exact absurd (((hr.within_planted_iff hl).1 hn).2.trans_le hlt) (Nat.not_lt.2 hge)
  · -- the copy has no parent, and the root is none of its nodes
    rcases Forest.within_or hn hw with hw | hw
    · exact absurd (hin.1 hw).1 (Nat.not_le.2 hbelow)
    · have hfree := hc'.parent?_top
      rw [Tree.id_planted] at hfree
      exact absurd (Forest.eq_of_within hfree hw) hbelow.ne'
  · exact absurd (hle.trans_le hc.add_size_le) (Nat.not_lt.2 hn)

/-- **Two trees that are the same but for the numbers** do not get in each other's way. -/
theorem independent_of_planted : Independent f first copy os := by
  have hc' := stands_after hl hr hc hlt os
  have hroot : first < f.size := (Nat.lt_add_of_pos_right t.size_pos).trans_le hr.add_size_le
  have hl' := (linked_after os hl hroot).1
  refine ⟨?_, fun n => ?_, fun n hn => get?_after hl hr hc hlt os hn,
    fun n hn => apart_after hl hr hc hlt os hn, ?_⟩
  · have htree := hr.tree_top
    have htree' := hc'.tree_top
    rw [Tree.id_planted, Tree.tree_planted] at htree htree'
    rw [htree, htree']
  · rw [hc'.within_planted_iff hl', hc.within_planted_iff hl]
  · rw [(runs_alone hc' os).1, (runs_alone hr os).1]

end

/-- **A sheet can be taken back to a copy of it**, whatever runs were made on the sheet, and
however they ended. -/
theorem independent_of_copy (hf : f.Linked) (t : Tree) (os : List Options) :
    Independent ((f.plant t).2.copy (f.plant t).1).2 (f.plant t).1
      ((f.plant t).2.copy (f.plant t).1).1 os := by
  have hr := Forest.stands_plant f t
  have htree := hr.tree_top
  rw [Tree.id_planted, Tree.tree_planted] at htree
  have hcopy : (f.plant t).2.copy (f.plant t).1 = (f.plant t).2.plant t :=
    congrArg (f.plant t).2.plant htree
  rw [hcopy]
  refine independent_of_planted ((hf.plant t).1.linked.plant t).1.linked
    ((Forest.spares_plant _ t).stands _ hr List.not_mem_nil) (Forest.stands_plant _ t) ?_ os
  exact (Forest.size_plant f t).ge

/-- The first run ends at the second wrapper and loses the two blocks that it has taken in by
then; they are still in the copy. -/
theorem independent_of_copy_nested : ∃ t,
    Tree.parse "@media a{}@mqgroup{@media b{}@mqgroup{@media c{}}}".toList = .ok t ∧
      Forest.empty.Linked ∧
      let sheet := (Forest.empty.plant t).2
      let root := (Forest.empty.plant t).1
      Independent (sheet.copy root).2 root (sheet.copy root).1
        [{}, Options.withWrapperName {} ['x'], { sort := .minWidth }] := by
  let media (params : Text) : Content := .atRule ⟨mediaName, params, true⟩
  let wrapper : Content := .atRule ⟨"mqgroup".toList, [], true⟩
  have ht : Tree.parse "@media a{}@mqgroup{@media b{}@mqgroup{@media c{}}}".toList
      = .ok (.node .root none [.node (media ['a']) (some ⟨1, 1⟩) [],
        .node wrapper (some ⟨1, 11⟩) [.node (media ['b']) (some ⟨1, 20⟩) [],
          .node wrapper (some ⟨1, 30⟩) [.node (media ['c']) (some ⟨1, 39⟩) []]]]) := rfl
  exact ⟨_, ht, Forest.linked_empty, independent_of_copy Forest.linked_empty _ _⟩

end Grouping
end MediaGrouping
