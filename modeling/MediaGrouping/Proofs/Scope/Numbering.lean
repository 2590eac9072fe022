/-
# The numbers of groups

A resolver is asked for many blocks, one after the other, and the forest may change in between.
What it knows is the list of the wrappers that have a group: a wrapper is told the number of its
place in the list, counted from two, and a new one is added at the end (`Resolver.Knows`). So the
numbers come up in their order, each belongs to one wrapper, and a call that tells no wrapper's
group leaves the list alone (`Resolver.numbers_of_run`).
-/

import MediaGrouping.Proofs.Registry
import MediaGrouping.Proofs.Scope.Resolving

namespace MediaGrouping
namespace Resolver

/-- A call of a resolver: what has happened to the forest since the call before, and the block
that is asked for. -/
structure Call where
  since : Forest → Forest
  block : NodeId

/-- What came of a call: the forest it was made in, the resolver before it and after it, and what
was said. -/
structure Reply where
  forest : Forest
  before : Resolver
  after : Resolver
  answer : Except NestedWrapper Resolution

namespace Reply

/-- The number and the anchor of the wrapper's group that was told, if one was. -/
def group? (x : Reply) : Option (GroupId × NodeId) :=
  match x.answer with
  | .ok (.wrapperGroup id anchor) => some (id, anchor)
  | _ => none

end Reply

/-- Asks for blocks one after the other. -/
def run (o : Options) (name : Text) : Resolver → Forest → List Call → List Reply
  | _, _, [] => []
  | r, f, call :: calls =>
    let f := call.since f
    let asked := r.ask o name f call.block
    ⟨f, r, asked.2.1, asked.1⟩ :: run o name asked.2.1 asked.2.2 calls

/-- The groups of wrappers that were told, in order. -/
def told (replies : List Reply) : List (GroupId × NodeId) := replies.filterMap Reply.group?

variable {o : Options} {name : Text} {f : Forest} {r : Resolver} {block : NodeId} {x : Reply}
  {groups : List (GroupId × NodeId)}

/-! ### One call -/

/-- **One call** tells the group of a wrapper that is no root, or leaves the resolver as it is. -/
theorem ask_cases (o : Options) (name : Text) (r : Resolver) (f : Forest) (block : NodeId) :
    (∃ anchor, (r.ask o name f block).1 = .ok (.wrapperGroup (r.groupId anchor).1 anchor) ∧
      (r.ask o name f block).2.1 = (r.groupId anchor).2 ∧
      ∃ c, f.content? anchor = some c ∧ c.isRoot = false) ∨
    (∀ id anchor, (r.ask o name f block).1 ≠ .ok (.wrapperGroup id anchor)) ∧
      (r.ask o name f block).2.1 = r := by
  cases hl : Scope.locate o name f block with
  | error obstacle =>
    obtain ⟨hnot, hsame⟩ := ask_of_error (r := r) hl
    exact .inr ⟨fun id anchor he => hnot (he ▸ trivial), by rw [hsame]⟩
  | ok place =>
    rw [ask_of_ok hl]
    unfold assign
    cases ha : place.anchor with
    | none => exact .inr ⟨by simp, rfl⟩
    | some anchor =>
      cases hroot : f.holds Content.isRoot anchor with
      | true => exact .inr ⟨by simp [hroot], by simp [hroot]⟩
      | false =>
        refine .inl ⟨anchor, by simp [hroot], by simp [hroot], ?_⟩
        -- the anchor bounds a scope without being a root, and so is a node
        obtain ⟨-, rfl⟩ := Scope.locateBelow_ok_iff.1 hl
        have hscope : Scope.isScope o f anchor = true := List.find?_some ha
        unfold Scope.isScope Scope.isWrapper Forest.holds at hscope
        unfold Forest.holds at hroot
        cases hc : f.content? anchor with
        | none => simp [hc] at hscope
        | some c => exact ⟨c, rfl, by simpa [hc] using hroot⟩

/-! ### What a resolver knows -/

/-- **What a resolver knows** after it has told groups: the wrappers in the order in which they
were first told, with numbers from two in the same order, and for each the number that was told. -/
structure Knows (r : Resolver) (groups : List (GroupId × NodeId)) : Prop where
  anchors : (groups.map Prod.snd).eraseDups = r.anchors
  numbers : (groups.map Prod.fst).eraseDups = List.range' 2 r.anchors.length
  memoized : ∀ g ∈ groups, r.groupId g.2 = (g.1, r)

theorem idxOf?_concat_of_some {anchors : List NodeId} {a : NodeId} {i : Nat}
    (h : anchors.idxOf? a = some i) (b : NodeId) : (anchors ++ [b]).idxOf? a = some i := by
  obtain ⟨hi, rfl, hbefore⟩ := List.idxOf?_eq_some_iff.1 h
  rw [List.idxOf?_eq_some_iff]
  refine ⟨by simp; omega, List.getElem_append_left hi, fun j hj => ?_⟩
  rw [List.getElem_append_left (hj.trans hi)]
  exact hbefore j hj

theorem groupId_of_some {a : NodeId} {i : Nat} (h : r.anchors.idxOf? a = some i) :
    r.groupId a = (2 + i, r) := by
  simp [groupId, h, rootGroupId]

theorem groupId_of_none {a : NodeId} (h : r.anchors.idxOf? a = none) :
    r.groupId a = (2 + r.anchors.length, ⟨r.anchors ++ [a]⟩) := by
  simp [groupId, h, rootGroupId]

theorem knows_start : start.Knows [] := ⟨rfl, rfl, by simp⟩

/-- A known wrapper has its place in the list. -/
theorem Knows.idxOf? (h : r.Knows groups) {g : GroupId × NodeId} (hg : g ∈ groups) :
    ∃ i, r.anchors.idxOf? g.2 = some i ∧ g.1 = 2 + i := by
  have hmem : g.2 ∈ r.anchors := by
    rw [← h.anchors, List.mem_eraseDups]
    exact List.mem_map_of_mem hg
  cases hi : r.anchors.idxOf? g.2 with
  | none => exact absurd hmem (List.idxOf?_eq_none_iff.1 hi)
  | some i => exact ⟨i, rfl, congrArg Prod.fst ((h.memoized g hg).symm.trans (groupId_of_some hi))⟩

/-- **Telling a wrapper's group** keeps the order of the wrappers and of the numbers. -/
theorem Knows.groupId (h : r.Knows groups) (a : NodeId) :
    (r.groupId a).2.Knows (groups ++ [((r.groupId a).1, a)]) := by
  obtain ⟨hanchors, hnumbers, hmemo⟩ := h
  cases hi : r.anchors.idxOf? a with
  | some i =>
    obtain ⟨hlt, hget, -⟩ := List.idxOf?_eq_some_iff.1 hi
    have ha : a ∈ groups.map Prod.snd := by
      rw [← List.mem_eraseDups, hanchors]
      exact hget ▸ List.getElem_mem hlt
    have hid : 2 + i ∈ groups.map Prod.fst := by
      rw [← List.mem_eraseDups, hnumbers, List.mem_range'_1]
      omega
    rw [groupId_of_some hi]
    refine ⟨?_, ?_, ?_⟩
    · rw [List.map_append, List.map_singleton, Registry.eraseDups_concat, if_pos ha, hanchors]
    · rw [List.map_append, List.map_singleton, Registry.eraseDups_concat, if_pos hid, hnumbers]
    · rintro g hg
      rcases List.mem_append.1 hg with hg | hg
      · exact hmemo g hg
      · rw [List.mem_singleton.1 hg]
        exact groupId_of_some hi
  | none =>
    have ha : a ∉ groups.map Prod.snd := by
      rw [← List.mem_eraseDups, hanchors]
      exact List.idxOf?_eq_none_iff.1 hi
    have hid : 2 + r.anchors.length ∉ groups.map Prod.fst := by
      rw [← List.mem_eraseDups, hnumbers, List.mem_range'_1]
      omega
    have hplaces : ∀ g ∈ groups, ∃ i, r.anchors.idxOf? g.2 = some i ∧ g.1 = 2 + i :=
      fun g hg => Knows.idxOf? ⟨hanchors, hnumbers, hmemo⟩ hg
    rw [groupId_of_none hi]
    refine ⟨?_, ?_, ?_⟩
    · rw [List.map_append, List.map_singleton, Registry.eraseDups_concat, if_neg ha, hanchors]
    · rw [List.map_append, List.map_singleton, Registry.eraseDups_concat, if_neg hid, hnumbers,
        List.length_append, List.length_singleton, List.range'_concat, Nat.one_mul]
    · rintro g hg
      rcases List.mem_append.1 hg with hg | hg
      · obtain ⟨i, hg2, hg1⟩ := hplaces g hg
        rw [hg1]
        exact groupId_of_some (idxOf?_concat_of_some hg2 a)
      · rw [List.mem_singleton.1 hg]
        refine groupId_of_some (Forest.idxOf?_before (List.idxOf?_eq_none_iff.1 hi))

/-- Two groups that were told have the same number just if they have the same wrapper. -/
theorem Knows.number_eq_iff (h : r.Knows groups) {g k : GroupId × NodeId} (hg : g ∈ groups)
    (hk : k ∈ groups) : g.1 = k.1 ↔ g.2 = k.2 := by
  obtain ⟨i, hgi, hg1⟩ := h.idxOf? hg
  obtain ⟨j, hkj, hk1⟩ := h.idxOf? hk
  constructor
  · intro he
    obtain rfl : i = j := Nat.add_left_cancel (hg1.symm.trans (he.trans hk1))
    obtain ⟨_, hget, -⟩ := List.idxOf?_eq_some_iff.1 hgi
    obtain ⟨_, hget', -⟩ := List.idxOf?_eq_some_iff.1 hkj
    exact hget.symm.trans hget'
  · intro he
    rw [he, hkj] at hgi
    rw [hg1, hk1, Option.some.inj hgi]

/-! ### Runs -/

/-- What a call tells is added to what the resolver knows. -/
theorem Knows.ask (h : r.Knows groups) (o : Options) (name : Text) (f : Forest) (block : NodeId) :
    let asked := r.ask o name f block
    asked.2.1.Knows (groups ++ (Reply.group? ⟨f, r, asked.2.1, asked.1⟩).toList) := by
  intro asked
  rcases ask_cases o name r f block with ⟨a, hanswer, hafter, -⟩ | ⟨hno, hafter⟩
  · rw [show asked.2.1 = _ from hafter, Reply.group?, show asked.1 = _ from hanswer]
    exact h.groupId a
  · have hnone : Reply.group? ⟨f, r, asked.2.1, asked.1⟩ = none := by
      unfold Reply.group?
      split
      · next id anchor he => exact absurd he (hno id anchor)
      · rfl
    rw [hnone, show asked.2.1 = _ from hafter]
    simpa using h

theorem told_cons (x : Reply) (replies : List Reply) :
    told (x :: replies) = x.group?.toList ++ told replies := by
  unfold told
  cases hx : x.group? with
  | none => rw [List.filterMap_cons_none hx]; rfl
  | some g => rw [List.filterMap_cons_some hx]; rfl

/-- **A run adds to what the resolver knows**, call by call. -/
theorem Knows.run (h : r.Knows groups) (o : Options) (name : Text) (f : Forest)
    (calls : List Call) : ∃ r' : Resolver, r'.Knows (groups ++ told (run o name r f calls)) := by
  induction calls generalizing r f groups with
  | nil => exact ⟨r, by simpa [Resolver.run, told] using h⟩
  | cons call calls ih =>
    obtain ⟨r', hr'⟩ := ih (h.ask o name (call.since f) call.block)
      (r.ask o name (call.since f) call.block).2.2
    rw [List.append_assoc] at hr'
    exact ⟨r', by rwa [Resolver.run, told_cons]⟩

/-- Every reply of a run is what one call gives. -/
theorem exists_ask_of_mem_run {calls : List Call} (h : x ∈ run o name r f calls) :
    ∃ block, x.answer = (x.before.ask o name x.forest block).1 ∧
      x.after = (x.before.ask o name x.forest block).2.1 := by
  induction calls generalizing r f with
  | nil => simp [run] at h
  | cons call calls ih =>
    rw [run, List.mem_cons] at h
    rcases h with rfl | h
    · exact ⟨call.block, rfl, rfl⟩
    · exact ih h

/-- **The numbers of groups are dense, unique and kept.** However often a resolver is asked, and
whatever happens to the forest in between: at their first appearances the numbers of wrappers are
2, 3, 4, … in their order, two are the same just if the wrappers are, no such wrapper is a root,
and a call that tells no wrapper's group takes no number. -/
theorem numbers_of_run (o : Options) (name : Text) (f : Forest) (calls : List Call) :
    let replies := run o name start f calls
    ((told replies).map Prod.fst).eraseDups
      = List.range' 2 ((told replies).map Prod.snd).eraseDups.length ∧
    (∀ g ∈ told replies, ∀ k ∈ told replies, g.1 = k.1 ↔ g.2 = k.2) ∧
    (∀ x ∈ replies, ∀ id anchor, x.answer = .ok (.wrapperGroup id anchor) →
      ∃ c, x.forest.content? anchor = some c ∧ c.isRoot = false) ∧
    ∀ x ∈ replies, x.group? = none → x.after = x.before := by
  intro replies
  obtain ⟨r', hr'⟩ := knows_start.run o name f calls
  rw [List.nil_append] at hr'
  refine ⟨by rw [hr'.numbers, hr'.anchors], fun g hg k hk => hr'.number_eq_iff hg hk, ?_, ?_⟩
  · intro x hx id anchor he
    obtain ⟨block, hanswer, -⟩ := exists_ask_of_mem_run hx
    rcases ask_cases o name x.before x.forest block with ⟨a, ha, -, hnode⟩ | ⟨hno, -⟩
    · rw [hanswer, ha] at he
      cases he
      exact hnode
    · exact absurd (hanswer ▸ he) (hno id anchor)
  · intro x hx hnone
    obtain ⟨block, hanswer, hafter⟩ := exists_ask_of_mem_run hx
    rcases ask_cases o name x.before x.forest block with ⟨a, ha, -, -⟩ | ⟨-, hsame⟩
    · rw [Reply.group?, hanswer, ha] at hnone
      cases hnone
    · rw [hafter, hsame]

/-- Blocks in two wrappers, at the top and below two wrappers, asked for in turn. -/
example :
    let media : Tree := .node (.atRule ⟨"media".toList, [], true⟩) none []
    let wrapper (children : List Tree) : Tree :=
      .node (.atRule ⟨"mqgroup".toList, [], true⟩) none children
    let t : Tree := .node .root none [wrapper [media], media, wrapper [media, wrapper [media]]]
    (run {} "media".toList start (Forest.empty.plant t).2
      ([7, 2, 3, 5, 2, 5].map (Call.mk id))).map (·.group?)
        = [none, some (2, 1), none, some (3, 4), some (2, 1), some (3, 4)] := by
  decide +kernel

end Resolver
end MediaGrouping
