/-
# The groups of a run

A run finds the group of an anchor by the number that the resolver gives to the
anchor. What it keeps there is a table of copies by anchor (`Keeps`), and merging
a block changes the table at one anchor only (`Keeps.aggregate`).
-/

import MediaGrouping.Grouping.Aggregate
import MediaGrouping.Proofs.Grouping.Merging
import Mathlib.Logic.Function.Basic

namespace MediaGrouping

/-- The copies that groups keep, by anchor. -/
abbrev Table := NodeId → Registry Planted

namespace Resolver

variable {r : Resolver} {root a : NodeId} {g h : Group}

/-- A group has the number of its anchor, the root being the first anchor. -/
def Numbers (r : Resolver) (root : NodeId) (g : Group) : Prop :=
  ∃ k, (root :: r.anchors)[k]? = some g.anchor ∧ g.id = rootGroupId + k ∧
    g.kind = if k = 0 then .root else .wrapper

theorem Numbers.anchor_eq (hg : r.Numbers root g) (hh : r.Numbers root h) (he : g.id = h.id) :
    g.anchor = h.anchor ∧ g.kind = h.kind := by
  obtain ⟨k, hk, hid, hkind⟩ := hg
  obtain ⟨k', hk', hid', hkind'⟩ := hh
  rw [hid, hid'] at he
  obtain rfl := Nat.add_left_cancel he
  exact ⟨Option.some.inj (hk.symm.trans hk'), hkind.trans hkind'.symm⟩

theorem Numbers.id_eq (hn : (root :: r.anchors).Nodup) (hg : r.Numbers root g)
    (hh : r.Numbers root h) (he : g.anchor = h.anchor) : g.id = h.id := by
  obtain ⟨k, hk, hid, -⟩ := hg
  obtain ⟨k', hk', hid', -⟩ := hh
  have hlt := (List.getElem?_eq_some_iff.1 hk).1
  rw [hid, hid', (List.getElem?_inj hlt hn).1 (hk.trans (he ▸ hk'.symm))]

theorem numbers_root (m : Registry NodeId) : r.Numbers root ⟨rootGroupId, root, .root, m⟩ :=
  ⟨0, rfl, rfl, rfl⟩

/-- **A wrapper gets the number of its place among the anchors**, and every
group keeps its number. -/
theorem numbers_groupId (hn : (root :: r.anchors).Nodup) (ha : a ≠ root) :
    (root :: (r.groupId a).2.anchors).Nodup ∧
      (∀ g, r.Numbers root g → (r.groupId a).2.Numbers root g) ∧
      ∀ m, (r.groupId a).2.Numbers root ⟨(r.groupId a).1, a, .wrapper, m⟩ := by
  have hnumber : ∀ i, rootGroupId + 1 + i = rootGroupId + (i + 1) := fun i => by
    rw [Nat.add_assoc, Nat.add_comm 1 i]
  rw [groupId]
  cases hi : r.anchors.idxOf? a with
  | some i =>
    obtain ⟨hlt, he, -⟩ := List.idxOf?_eq_some_iff.1 hi
    refine ⟨hn, fun _ h => h, fun m => ⟨i + 1, ?_, hnumber i, rfl⟩⟩
    rw [List.getElem?_cons_succ, List.getElem?_eq_getElem hlt, he]
  | none =>
    have hnot : a ∉ r.anchors := List.idxOf?_eq_none_iff.1 hi
    refine ⟨?_, fun g ⟨k, hk, hid⟩ => ⟨k, ?_, hid⟩,
      fun m => ⟨r.anchors.length + 1, ?_, hnumber _, rfl⟩⟩
    · have hp : (root :: (r.anchors ++ [a])).Perm (a :: root :: r.anchors) := by
        rw [← List.cons_append]
        exact List.perm_append_singleton a (root :: r.anchors)
      exact hp.nodup_iff.2 (List.nodup_cons.2 ⟨by simp [ha, hnot], hn⟩)
    · rw [← List.cons_append, List.getElem?_append_left (List.getElem?_eq_some_iff.1 hk).1, hk]
    · rw [List.getElem?_cons_succ, List.getElem?_append_right le_rfl, Nat.sub_self]
      rfl

end Resolver

namespace Aggregator

variable {gs : List Group} {g h : Group}

/-- Groups with ascending numbers. -/
def Ascending (gs : List Group) : Prop := gs.Pairwise (·.id < ·.id)

/-- **A group takes the place of the one with its number.** -/
theorem mem_place (hs : Ascending gs) : h ∈ place g gs ↔ h = g ∨ (h ∈ gs ∧ h.id ≠ g.id) := by
  induction gs with
  | nil => simp [place]
  | cons k gs ih =>
    obtain ⟨hk, hs⟩ := List.pairwise_cons.1 hs
    rw [place]
    split_ifs with h₁ h₂
    · have hgt : ∀ x ∈ k :: gs, x.id ≠ g.id := List.forall_mem_cons.2
        ⟨Nat.ne_of_gt h₁, fun x hx => Nat.ne_of_gt (Nat.lt_trans h₁ (hk x hx))⟩
      rw [List.mem_cons]
      exact or_congr_right ⟨fun hm => ⟨hm, hgt h hm⟩, And.left⟩
    · have hgt : ∀ x ∈ gs, x.id ≠ g.id := fun x hx => Nat.ne_of_gt (h₂ ▸ hk x hx)
      rw [List.mem_cons, List.mem_cons]
      refine or_congr_right ⟨fun hm => ⟨Or.inr hm, hgt h hm⟩, fun ⟨hm, hne⟩ => ?_⟩
      exact hm.resolve_left fun he => hne (he ▸ h₂.symm)
    · rw [List.mem_cons, ih hs, List.mem_cons]
      constructor
      · rintro (rfl | hg | ⟨hm, hne⟩)
        · exact Or.inr ⟨Or.inl rfl, Ne.symm h₂⟩
        · exact Or.inl hg
        · exact Or.inr ⟨Or.inr hm, hne⟩
      · rintro (hg | ⟨hm | hm, hne⟩)
        · exact Or.inr (Or.inl hg)
        · exact Or.inl hm
        · exact Or.inr (Or.inr ⟨hm, hne⟩)

theorem ascending_place (hs : Ascending gs) : Ascending (place g gs) := by
  induction gs with
  | nil => exact List.pairwise_singleton _ _
  | cons k gs ih =>
    obtain ⟨hk, hs⟩ := List.pairwise_cons.1 hs
    rw [place]
    split_ifs with h₁ h₂
    · refine List.pairwise_cons.2 ⟨List.forall_mem_cons.2 ⟨h₁, fun x hx => ?_⟩, ‹_›⟩
      exact Nat.lt_trans h₁ (hk x hx)
    · exact List.pairwise_cons.2 ⟨fun x hx => h₂ ▸ hk x hx, hs⟩
    · refine List.pairwise_cons.2 ⟨fun x hx => ?_, ih hs⟩
      rcases (mem_place hs).1 hx with rfl | ⟨hx, -⟩
      · exact Nat.lt_of_le_of_ne (Nat.le_of_not_lt h₁) (Ne.symm h₂)
      · exact hk x hx

/-- **What groups keep**: the copies of a table, under the numbers of a resolver. -/
structure Keeps (root : NodeId) (r : Resolver) (a : Aggregator) (table : Table) : Prop where
  anchors : (root :: r.anchors).Nodup
  ascending : Ascending a.groups
  numbers : ∀ g ∈ a.groups, r.Numbers root g
  merged : ∀ g ∈ a.groups, g.merged = (table g.anchor).mapValues Planted.id
  known : ∀ n, table n ≠ [] ↔ ∃ g ∈ a.groups, g.anchor = n

namespace Keeps

variable {root n : NodeId} {r r' : Resolver} {a : Aggregator} {table : Table} {id : GroupId}
  {kind : GroupKind} {m : Registry Planted} {f f' : Forest}

theorem start (root : NodeId) : Keeps root .start .start fun _ => [] where
  anchors := List.nodup_singleton root
  ascending := List.Pairwise.nil
  numbers := List.forall_mem_nil _
  merged := List.forall_mem_nil _
  known := fun _ => iff_of_false (fun h => h rfl) fun ⟨_, h, _⟩ => List.not_mem_nil h

/-- The anchor of a number has its copies in the group of the number. -/
theorem group_eq (h : Keeps root r a table) (hr : (root :: r'.anchors).Nodup)
    (hext : ∀ g, r.Numbers root g → r'.Numbers root g)
    (hnum : ∀ m, r'.Numbers root ⟨id, n, kind, m⟩) :
    (a.group? id).getD ⟨id, n, kind, []⟩ = ⟨id, n, kind, (table n).mapValues Planted.id⟩ := by
  rw [group?]
  cases hg : a.groups.find? (·.id == id) with
  | some g =>
    have hmem := List.mem_of_find?_eq_some hg
    have hid : g.id = id := by simpa using List.find?_some hg
    obtain ⟨han, hkind⟩ := (hext g (h.numbers g hmem)).anchor_eq (hnum []) hid
    have hm := h.merged g hmem
    obtain ⟨gid, ganchor, gkind, gmerged⟩ := g
    simp only at hid han hkind hm
    rw [Option.getD_some, hid, han, hkind, hm, han]
  | none =>
    have hno : table n = [] := by
      by_contra hne
      obtain ⟨g, hmem, he⟩ := (h.known n).1 hne
      have := List.find?_eq_none.1 hg g hmem
      rw [beq_iff_eq] at this
      exact this ((hext g (h.numbers g hmem)).id_eq hr (hnum []) he)
    rw [hno]
    rfl

/-- **Merging a block changes the copies of one anchor.** -/
theorem aggregate (h : Keeps root r a table) (block : NodeId) (hr : (root :: r'.anchors).Nodup)
    (hext : ∀ g, r.Numbers root g → r'.Numbers root g)
    (hnum : ∀ m, r'.Numbers root ⟨id, n, kind, m⟩)
    (habs : Group.absorb ⟨id, n, kind, (table n).mapValues Planted.id⟩ f block
      = (⟨id, n, kind, m.mapValues Planted.id⟩, f')) (hm : m ≠ []) :
    (a.aggregate f id n kind block).2 = f' ∧
      Keeps root r' (a.aggregate f id n kind block).1 (Function.update table n m) := by
  have hagg : a.aggregate f id n kind block
      = (⟨place ⟨id, n, kind, m.mapValues Planted.id⟩ a.groups, a.captured + 1⟩, f') := by
    rw [Aggregator.aggregate, h.group_eq hr hext hnum, habs]
  rw [hagg]
  refine ⟨rfl, hr, ascending_place h.ascending, ?_, ?_, ?_⟩
  · intro g hg
    rcases (mem_place h.ascending).1 hg with rfl | ⟨hg, -⟩
    · exact hnum _
    · exact hext g (h.numbers g hg)
  · intro g hg
    rcases (mem_place h.ascending).1 hg with rfl | ⟨hg, hne⟩
    · rw [Function.update_self]
    · have han : g.anchor ≠ n := fun he =>
        hne ((hext g (h.numbers g hg)).id_eq hr (hnum []) he)
      rw [Function.update_of_ne han]
      exact h.merged g hg
  · intro k
    by_cases hkn : k = n
    · subst hkn
      rw [Function.update_self]
      exact iff_of_true hm ⟨_, (mem_place h.ascending).2 (Or.inl rfl), rfl⟩
    · rw [Function.update_of_ne hkn, h.known k]
      constructor
      · rintro ⟨g, hg, he⟩
        refine ⟨g, (mem_place h.ascending).2 (Or.inr ⟨hg, fun hid => hkn ?_⟩), he⟩
        exact he.symm.trans ((hext g (h.numbers g hg)).anchor_eq (hnum []) hid).1
      · rintro ⟨g, hg, he⟩
        rcases (mem_place h.ascending).1 hg with rfl | ⟨hg, -⟩
        · exact absurd he.symm hkn
        · exact ⟨g, hg, he⟩

end Keeps
end Aggregator

namespace Forest

/-- **A forest has the copies of a table**: they stand in it, and their numbers,
all at least `first`, are distinct. -/
structure Holds (f : Forest) (first : NodeId) (table : Table) : Prop where
  stands : ∀ n, ∀ e ∈ table n, f.Stands e.2
  fresh : ∀ n, ∀ k ∈ (table n).tops, first ≤ k
  keys : ∀ n, (Registry.keys (table n)).Nodup
  nodup : ∀ n, (table n).tops.Nodup
  apart : ∀ n n', n ≠ n' → (table n).tops.Disjoint (table n').tops

namespace Holds

variable {f f' : Forest} {first n : NodeId} {table : Table} {m : Registry Planted} {t : Planted}
  {x : Site}

theorem empty (f : Forest) (first : NodeId) : Holds f first fun _ => [] where
  stands := fun _ _ h => absurd h List.not_mem_nil
  fresh := fun _ _ h => absurd h List.not_mem_nil
  keys := fun _ => List.nodup_nil
  nodup := fun _ => List.nodup_nil
  apart := fun _ _ _ => List.disjoint_nil_left _

theorem lt_size (h : Holds f first table) {n k : NodeId} (hk : k ∈ (table n).tops) :
    k < f.size := by
  obtain ⟨e, he, rfl⟩ := List.mem_map.1 hk
  exact (h.stands n e he).lt_size e.2.self_mem_ids

/-- A change that spares everything but one tree spares the copies. -/
theorem spares (h : Holds f first table) (hs : Spares f f' [n]) (hn : n < first) :
    Holds f' first table where
  stands := fun k e he => hs.stands _ (h.stands k e he) fun hm => by
    have := h.fresh k _ (List.mem_map_of_mem (f := fun e => e.2.id) he)
    exact absurd hn (Nat.not_lt.2 (List.mem_singleton.1 hm ▸ this))
  fresh := h.fresh
  keys := h.keys
  nodup := h.nodup
  apart := h.apart

/-- Where one anchor gets new copies and the other anchors keep theirs apart from these,
all copies are apart. -/
theorem apart_update (h : Holds f first table)
    (hm : ∀ k, k ≠ n → m.tops.Disjoint (table k).tops) (k k' : NodeId) (hne : k ≠ k') :
    (Function.update table n m k).tops.Disjoint (Function.update table n m k').tops := by
  rcases eq_or_ne k n with rfl | hk
  · rw [Function.update_self, Function.update_of_ne hne.symm]
    exact hm k' hne.symm
  · rw [Function.update_of_ne hk]
    rcases eq_or_ne k' n with rfl | hk'
    · rw [Function.update_self]
      exact List.disjoint_comm.1 (hm k hk)
    · rw [Function.update_of_ne hk']
      exact h.apart k k' hne

/-- **Taking in a block** changes the copies of one anchor. -/
theorem absorbed (h : Holds f first table) (hf : first ≤ f.size) (ht : t.id < first)
    (ha : Absorbed f f' t x (table n) m) : Holds f' first (Function.update table n m) := by
  have hnew : ∀ k, f.size ∉ (table k).tops := fun k hk => (h.lt_size hk).false
  have htops : ∀ k ∈ m.tops, k ∈ (table n).tops ∨ k = f.size := by
    intro k hk
    rcases ha.tops with he | he
    · exact Or.inl (he ▸ hk)
    · rw [he, List.mem_append, List.mem_singleton] at hk
      exact hk
  have hothers : ∀ k, k ≠ n → ∀ e ∈ table k, f'.Stands e.2 := by
    intro k hk e he
    have hmem := List.mem_map_of_mem (f := fun e : Text × Planted => e.2.id) he
    refine ha.spares.stands _ (h.stands k e he) fun hm => ?_
    rcases List.mem_cons.1 hm with hm | hm
    · exact absurd ht (Nat.not_lt.2 (hm ▸ h.fresh k _ hmem))
    · exact h.apart k n hk hmem hm
  refine ⟨?_, ?_, ?_, ?_, h.apart_update fun k hk i hi hik => ?_⟩
  · exact (Function.forall_update_iff table (p := fun _ r => ∀ e ∈ r, f'.Stands e.2)).2
      ⟨ha.copies, hothers⟩
  · refine (Function.forall_update_iff table (p := fun _ r => ∀ i ∈ r.tops, first ≤ i)).2
      ⟨fun i hi => ?_, fun k _ => h.fresh k⟩
    exact (htops i hi).elim (h.fresh n i) fun he => he ▸ hf
  · refine (Function.forall_update_iff table (p := fun _ r => (Registry.keys r).Nodup)).2
      ⟨?_, fun k _ => h.keys k⟩
    rw [← Registry.keys_mapValues Planted.tree m, ha.merged]
    exact Registry.nodup_keys_update (by rw [Registry.keys_mapValues]; exact h.keys n)
  · refine (Function.forall_update_iff table (p := fun _ r => r.tops.Nodup)).2
      ⟨?_, fun k _ => h.nodup k⟩
    rcases ha.tops with he | he
    · exact he ▸ h.nodup n
    · rw [he, (List.perm_append_singleton _ _).nodup_iff, List.nodup_cons]
      exact ⟨hnew n, h.nodup n⟩
  · rcases htops i hi with hi | rfl
    · exact h.apart n k hk.symm hi hik
    · exact hnew k hik

end Holds
end Forest
end MediaGrouping
