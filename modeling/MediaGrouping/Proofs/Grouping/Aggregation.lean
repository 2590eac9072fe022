/-
# What an aggregator collects

An aggregator takes in blocks one call after the other, for groups in any order, and the
blocks may be any nodes: out of their place already, inside each other, or the same one
again. What it keeps of a group are the blocks of its calls, each as it was at its call,
joined by their query lists (`Collected`): the first block with a query list whole, and the
children of the later ones behind its own. The forest only loses the links above the
blocks (`Linked.get?_absorb`).

The proof follows a table of copies by group (`Collecting`). A call changes the copies of
one group (`Collecting.step`), since the block stands in a tree whatever it is.
-/

import MediaGrouping.Sheet.Parser
import MediaGrouping.Proofs.Forest.Relinking
import MediaGrouping.Proofs.Forest.Rooted
import MediaGrouping.Proofs.Grouping.Groups
import MediaGrouping.Proofs.Grouping.Pieces

namespace MediaGrouping

/-! ### Blocks with one query list -/

theorem Tree.extend_cons (t u : Tree) (us : List Tree) :
    t.extend (u :: us) = .node t.content.withBlock t.source (t.children ++ u :: us) := rfl

theorem Tree.extend_extend (t : Tree) (us vs : List Tree) :
    (t.extend us).extend vs = t.extend (us ++ vs) := by
  cases us with
  | nil => rfl
  | cons u us =>
    cases vs with
    | nil => rw [List.append_nil]; rfl
    | cons v vs =>
      have hc : (t.extend (u :: us)).content.withBlock = t.content.withBlock :=
        Content.withBlock_withBlock _
      rw [extend_cons _ v, hc, children_extend, List.append_assoc]
      rfl

namespace Grouping

/-- Blocks joined into one: the first, with the children of the later ones behind its own. -/
def joined : List Tree → Option Tree
  | [] => none
  | t :: ts => some (t.extend (ts.flatMap Tree.children))

theorem joined_append_singleton (ts : List Tree) (t : Tree) :
    joined (ts ++ [t]) = some (match joined ts with
      | some u => u.extend t.children
      | none => t) := by
  cases ts with
  | nil => rfl
  | cons u ts =>
    rw [List.cons_append, joined, List.flatMap_append, List.flatMap_singleton,
      ← Tree.extend_extend]
    rfl

/-- **A merged block** is made of the blocks with its query list. -/
theorem find?_merged (ts : List Tree) (k : Text) :
    Registry.find? (merged ts) k = joined (ts.filter (·.query == k)) := by
  induction ts using List.reverseRecOn with
  | nil => rfl
  | append_singleton ts t ih =>
    rw [merged_append_singleton, mergeBlock, Registry.find?_update, List.filter_append]
    by_cases hk : k = t.query
    · subst hk
      rw [if_pos rfl, List.filter_cons_of_pos (by simp), List.filter_nil, ih]
      exact (joined_append_singleton _ t).symm
    · rw [if_neg hk, List.filter_cons_of_neg (by simpa using Ne.symm hk), List.filter_nil,
        List.append_nil, ih]

end Grouping

/-! ### Taking a block in -/

namespace Forest

open Grouping (mergeBlock)

variable {f f' : Forest} {n m block target : NodeId} {t : Planted} {x : Site}

/-- Copying nodes to the end of a node changes no old node but that one. -/
theorem get?_appendCopies (ns : List NodeId) :
    ∀ {f : Forest}, n < f.size → n ≠ target →
      (Group.appendCopies f target ns).get? n = f.get? n := by
  induction ns with
  | nil => exact fun _ _ => rfl
  | cons c ns ih =>
    intro f hn hne
    have hfree : (f.copy c).2.parent? (f.copy c).1 = none := by
      have := (stands_plant f (f.tree c)).parent?_top
      rwa [Tree.id_planted] at this
    have hlt : n < ((f.copy c).2.append target (f.copy c).1).size := by
      rw [size_append]
      exact hn.trans_le (spares_plant f (f.tree c)).size_le
    have hnew : (f.copy c).1 ≠ n := hn.ne'
    have hold : (f.copy c).2.get? n = f.get? n := get?_plant _ hn
    rw [Group.appendCopies, ih hlt hne, get?_append hfree, hold]
    simp only [if_neg hne.symm, if_neg hnew]
    cases f.get? n <;> rfl

/-- **Taking a block in** only takes it out of its place, as far as old nodes go that are
no merged blocks. -/
theorem Linked.get?_absorb {g : Group} (h : f.Linked) (hg : ∀ e ∈ g.merged, e.2 < f.size)
    (block : NodeId) (hn : n < f.size) (hno : ∀ e ∈ g.merged, n ≠ e.2) :
    (g.absorb f block).2.get? n = (f.get? n).map (Entry.without [block] n) := by
  rw [Group.absorb]
  split
  · next target htarget =>
    have hm := Registry.mem_of_find? htarget
    have hl := (h.appendCopies (f.children block) (hg _ hm)).linked
    rw [hl.get?_detach, get?_appendCopies _ hn (hno _ hm)]
  · have hl := (h.plant (f.tree block)).1.linked
    have hold : (f.copy block).2.get? n = f.get? n := get?_plant _ hn
    exact (hl.get?_detach block n).trans (by rw [← hold]; rfl)

end Forest

/-! ### Calls -/

/-- A request to take in a block, for the group of a number. -/
structure Call where
  id : GroupId
  anchor : NodeId
  kind : GroupKind
  block : NodeId

namespace Aggregator

open Forest (Linked Relinked Holds)
open Grouping (joined)

/-- Takes in the block of a call. -/
def take (a : Aggregator) (f : Forest) (c : Call) : Aggregator × Forest :=
  a.aggregate f c.id c.anchor c.kind c.block

/-- Takes in the blocks of calls, one after the other. -/
def run (a : Aggregator) (f : Forest) : List Call → Aggregator × Forest
  | [] => (a, f)
  | c :: cs => run (a.take f c).1 (a.take f c).2 cs

/-- The calls of a run, each with the tree that its block has when it is taken in. -/
def found (a : Aggregator) (f : Forest) : List Call → List (Call × Tree)
  | [] => []
  | c :: cs => (c, f.tree c.block) :: found (a.take f c).1 (a.take f c).2 cs

/-- The trees of the blocks that were taken in for a group under a query list. -/
def blocksOf (f : Forest) (done : List (Call × Tree)) (id : GroupId) (k : Text) : List Tree :=
  (done.filter fun x => x.1.id == id && f.queryList x.1.block == k).map Prod.snd

variable {a : Aggregator} {f f₀ : Forest} {c : Call} {calls : List Call} {n p : NodeId}
  {done : List (Call × Tree)} {table : GroupId → Registry Planted} {m : Registry Planted}

theorem found_map_fst (a : Aggregator) (f : Forest) (calls : List Call) :
    (found a f calls).map Prod.fst = calls := by
  induction calls generalizing a f with
  | nil => rfl
  | cons c cs ih => rw [found, List.map_cons, ih]

/-! ### The groups -/

/-- **The groups of calls**: one for each number used, by ascending number, with the anchor and
the kind of the first call for it and the copies that a table has for it. -/
structure Grouped (done : List (Call × Tree)) (a : Aggregator)
    (table : GroupId → Registry Planted) : Prop where
  ascending : Ascending a.groups
  used : ∀ id, (∃ g ∈ a.groups, g.id = id) ↔ ∃ x ∈ done, x.1.id = id
  first : ∀ g ∈ a.groups, ∃ x, done.find? (·.1.id == g.id) = some x ∧ g.anchor = x.1.anchor ∧
    g.kind = x.1.kind
  merged : ∀ g ∈ a.groups, g.merged = (table g.id).mapValues Planted.id
  known : ∀ id, table id ≠ [] → ∃ x ∈ done, x.1.id = id
  captured : a.captured = done.length

namespace Grouped

theorem start : Grouped [] .start fun _ => [] where
  ascending := List.Pairwise.nil
  used _ := iff_of_false (fun ⟨_, hg, _⟩ => List.not_mem_nil hg) fun ⟨_, hx, _⟩ =>
    List.not_mem_nil hx
  first _ hg := absurd hg List.not_mem_nil
  merged _ hg := absurd hg List.not_mem_nil
  known _ hne := absurd rfl hne
  captured := rfl

/-- **The group of a call** has the number of the call and the copies of the table. Its
anchor and kind are those of the first call with this number. -/
theorem group (h : Grouped done a table) (c : Call) (t : Tree) :
    ∃ g, (a.group? c.id).getD ⟨c.id, c.anchor, c.kind, []⟩ = g ∧ g.id = c.id ∧
      g.merged = (table c.id).mapValues Planted.id ∧
      ∃ x, (done ++ [(c, t)]).find? (·.1.id == c.id) = some x ∧ g.anchor = x.1.anchor ∧
        g.kind = x.1.kind := by
  refine ⟨_, rfl, ?_⟩
  rw [group?]
  cases hg : a.groups.find? (·.id == c.id) with
  | some g =>
    have hmem : g ∈ a.groups := List.mem_of_find?_eq_some hg
    have hid : g.id = c.id := by simpa using List.find?_some hg
    obtain ⟨x, hx, hfirst⟩ := h.first g hmem
    refine ⟨hid, hid ▸ h.merged g hmem, x, ?_, hfirst⟩
    rw [List.find?_append, ← hid, hx]
    rfl
  | none =>
    have hno : ∀ x ∈ done, x.1.id ≠ c.id := by
      intro x hx hxc
      obtain ⟨g, hmem, hid⟩ := (h.used c.id).2 ⟨x, hx, hxc⟩
      simpa [hid] using List.find?_eq_none.1 hg g hmem
    have hnil : table c.id = [] := by
      by_contra hne
      obtain ⟨x, hx, hxc⟩ := h.known c.id hne
      exact hno x hx hxc
    refine ⟨rfl, ?_, (c, t), ?_, rfl, rfl⟩
    · rw [hnil]
      rfl
    · rw [List.find?_append, List.find?_eq_none.2 fun x hx => by simpa using hno x hx]
      simp

/-- **Merging a block changes one group.** -/
theorem place (h : Grouped done a table) {g : Group} {c : Call} {t : Tree}
    (hid : g.id = c.id)
    (hfirst : ∃ x, (done ++ [(c, t)]).find? (·.1.id == c.id) = some x ∧ g.anchor = x.1.anchor ∧
      g.kind = x.1.kind) (hg : g.merged = m.mapValues Planted.id) :
    Grouped (done ++ [(c, t)]) ⟨Aggregator.place g a.groups, a.captured + 1⟩
      (Function.update table c.id m) := by
  have hmem : ∀ k, k ∈ Aggregator.place g a.groups ↔ k = g ∨ k ∈ a.groups ∧ k.id ≠ c.id :=
    fun k => hid ▸ mem_place h.ascending
  have hnew : ∃ x ∈ done ++ [(c, t)], x.1.id = c.id :=
    ⟨(c, t), List.mem_append_right _ List.mem_cons_self, rfl⟩
  have hold : ∀ {id}, (∃ x ∈ done, x.1.id = id) → ∃ x ∈ done ++ [(c, t)], x.1.id = id :=
    fun ⟨x, hx, he⟩ => ⟨x, List.mem_append_left _ hx, he⟩
  refine ⟨ascending_place h.ascending, fun id => ?_, fun k hk => ?_, fun k hk => ?_, ?_, ?_⟩
  · constructor
    · rintro ⟨k, hk, rfl⟩
      rcases (hmem k).1 hk with rfl | ⟨hk, -⟩
      · exact hid.symm ▸ hnew
      · exact hold ((h.used k.id).1 ⟨k, hk, rfl⟩)
    · rintro ⟨x, hx, rfl⟩
      by_cases hxc : x.1.id = c.id
      · exact ⟨g, (hmem g).2 (.inl rfl), hid.trans hxc.symm⟩
      · have hx : x ∈ done := (List.mem_append.1 hx).resolve_right fun hs =>
          hxc (by rw [List.mem_singleton.1 hs])
        obtain ⟨k, hk, hkid⟩ := (h.used _).2 ⟨x, hx, rfl⟩
        exact ⟨k, (hmem k).2 (.inr ⟨hk, hkid ▸ hxc⟩), hkid⟩
  · rcases (hmem k).1 hk with rfl | ⟨hk, -⟩
    · exact hid.symm ▸ hfirst
    · obtain ⟨x, hx, hxk⟩ := h.first k hk
      exact ⟨x, by rw [List.find?_append, hx]; rfl, hxk⟩
  · rcases (hmem k).1 hk with rfl | ⟨hk, hne⟩
    · rw [hid, Function.update_self, hg]
    · rw [Function.update_of_ne hne, h.merged k hk]
  · intro id hne
    rcases eq_or_ne id c.id with rfl | hid
    · exact hnew
    · rw [Function.update_of_ne hid] at hne
      exact hold (h.known id hne)
  · rw [h.captured, List.length_append, List.length_singleton]

end Grouped

/-! ### The copies -/

/-- **The copies of calls**, in a forest that was `f₀` before the first call: those of a group
are the blocks taken in for it, merged. The old nodes are as they were, but for the blocks
taken out, and none of them is below a new one. -/
structure Copied (f₀ : Forest) (done : List (Call × Tree)) (f : Forest)
    (table : GroupId → Registry Planted) : Prop where
  linked : f₀.Linked
  relinked : Relinked f₀ f fun n _ => f₀.size ≤ n
  holds : Holds f f₀.size table
  trees : ∀ id, (table id).mapValues Planted.tree
    = Grouping.merged ((done.filter (·.1.id == id)).map Prod.snd)
  queries : ∀ x ∈ done, x.2.query = f₀.queryList x.1.block
  frame : ∀ n < f₀.size, f.get? n = (f₀.get? n).map (Entry.without (done.map (·.1.block)) n)

namespace Copied

theorem start (h : f.Linked) : Copied f [] f fun _ => [] where
  linked := h
  relinked := h.refl
  holds := Holds.empty f f.size
  trees _ := rfl
  queries _ hx := absurd hx List.not_mem_nil
  frame n _ := by
    have hid : Entry.without [] n = id := funext fun e => by simp [Entry.without]
    rw [List.map_nil, hid, Option.map_id, id]

/-- No new node is above an old one. -/
theorem within (h : Copied f₀ done f table) (hn : n < f₀.size) (hw : f.Within n p) :
    p < f₀.size := by
  refine h.linked.lt_size_of_within hn (h.relinked.within (fun x _ hx hnx => ?_) hw)
  exact absurd (h.linked.lt_size_of_within hn hnx) hx.not_gt

/-- The query list of an old node stays the same. -/
theorem queryList_eq (h : Copied f₀ done f table) (hn : n < f₀.size) :
    f.queryList n = f₀.queryList n := by
  have hcontent : f.content? n = f₀.content? n := by
    rw [Forest.content?, h.frame n hn, Option.map_map]
    rfl
  rw [Forest.queryList, Forest.atRule?, hcontent]
  rfl

/-- **Taking in a block changes the copies of one group.** -/
theorem absorb (h : Copied f₀ done f table) (hc : c.block < f₀.size) {g : Group}
    (hg : g.merged = (table c.id).mapValues Planted.id) :
    ∃ m : Registry Planted,
      (g.absorb f c.block).1 = { g with merged := m.mapValues Planted.id } ∧
      Copied f₀ (done ++ [(c, f.tree c.block)]) (g.absorb f c.block).2
        (Function.update table c.id m) := by
  have hl := h.relinked.linked
  -- wherever the block is by now, it is in some tree that stands
  obtain ⟨t, ht, hw, x, hx, hxc⟩ := hl.exists_site (hc.trans_le h.relinked.size_le)
  have htree : x.here.tree = f.tree c.block := by rw [← hxc, ht.tree_site hx]
  have hquery : (f.tree c.block).query = f.queryList c.block := by
    rw [← htree, ← hxc, Forest.queryList_site ht hx]
  have htop : t.id < f₀.size := h.within hc hw
  obtain ⟨m, hgm, habs⟩ := ht.absorb hx hg (h.holds.stands c.id) (h.holds.nodup c.id)
    fun hm => Nat.not_lt.2 (h.holds.fresh _ _ hm) htop
  rw [hxc] at hgm habs
  have hnew : ∀ e ∈ g.merged, e.2 < f.size ∧ f₀.size ≤ e.2 := by
    intro e he
    rw [hg] at he
    obtain ⟨u, hu, rfl⟩ := List.mem_map.1 he
    have hut := List.mem_map_of_mem (f := fun e : Text × Planted => e.2.id) hu
    exact ⟨h.holds.lt_size hut, h.holds.fresh _ _ hut⟩
  refine ⟨m, hgm, h.linked, ?_, h.holds.absorbed h.relinked.size_le htop habs, fun id => ?_,
    fun y hy => ?_, fun n hn => ?_⟩
  · exact h.relinked.trans ((hl.absorb (fun e he => (hnew e he).1) _).mono
      fun hn => h.relinked.size_le.trans hn)
  · rw [List.filter_append, List.map_append]
    rcases eq_or_ne id c.id with rfl | hne
    · rw [Function.update_self, habs.merged, h.trees, htree,
        List.filter_cons_of_pos (by simp), List.filter_nil, List.map_singleton,
        Grouping.merged_append_singleton]
    · rw [Function.update_of_ne hne, h.trees, List.filter_cons_of_neg (by simpa using hne.symm),
        List.filter_nil, List.map_nil, List.append_nil]
  · rcases List.mem_append.1 hy with hy | hy
    · exact h.queries y hy
    · rw [List.mem_singleton.1 hy, hquery, h.queryList_eq hc]
  · rw [hl.get?_absorb (fun e he => (hnew e he).1) _ (hn.trans_le h.relinked.size_le)
      fun e he => (hn.trans_le (hnew e he).2).ne, h.frame n hn, Option.map_map, List.map_append]
    congr 1
    exact funext fun e => Entry.without_without _ _ n e

/-- **The copies of a group** are the blocks taken in for it, joined by query list. -/
theorem find?_table (h : Copied f₀ done f table) (id : GroupId) (k : Text) :
    (Registry.find? (table id) k).map Planted.tree = joined (blocksOf f₀ done id k) := by
  rw [← Registry.find?_mapValues, h.trees, Grouping.find?_merged, List.filter_map,
    List.filter_filter, blocksOf]
  congr 2
  refine List.filter_congr fun x hx => ?_
  rw [Function.comp_apply, h.queries x hx, Bool.and_comm]

end Copied

/-! ### Runs -/

/-- **One call** keeps the groups and the copies in step. -/
theorem take_collects (hg : Grouped done a table) (hf : Copied f₀ done f table)
    (hc : c.block < f₀.size) :
    ∃ table', Grouped (done ++ [(c, f.tree c.block)]) (a.take f c).1 table' ∧
      Copied f₀ (done ++ [(c, f.tree c.block)]) (a.take f c).2 table' := by
  obtain ⟨g, hgroup, hid, hmerged, hfirst⟩ := hg.group c (f.tree c.block)
  obtain ⟨m, hgm, hf'⟩ := hf.absorb hc hmerged
  have htake : a.take f c = (⟨place { g with merged := m.mapValues Planted.id } a.groups,
      a.captured + 1⟩, (g.absorb f c.block).2) := by
    rw [take, aggregate, hgroup, ← hgm]
  rw [htake]
  exact ⟨_, hg.place hid hfirst rfl, hf'⟩

/-- **All calls** do. -/
theorem run_collects : ∀ {calls : List Call} {done : List (Call × Tree)} {a : Aggregator}
    {f : Forest} {table : GroupId → Registry Planted}, Grouped done a table →
    Copied f₀ done f table → (∀ c ∈ calls, c.block < f₀.size) →
    ∃ table', Grouped (done ++ found a f calls) (run a f calls).1 table' ∧
      Copied f₀ (done ++ found a f calls) (run a f calls).2 table'
  | [], _, _, _, table, hg, hf, _ => by
    rw [found, List.append_nil]
    exact ⟨table, hg, hf⟩
  | c :: cs, _, a, f, _, hg, hf, hb => by
    rw [List.forall_mem_cons] at hb
    obtain ⟨table', hg, hf⟩ := take_collects hg hf hb.1
    have hrest := run_collects hg hf hb.2
    rw [List.append_assoc, List.singleton_append] at hrest
    exact hrest

/-- **What an aggregator has collected** by calls on a forest `f`, which they leave as `f'`. -/
structure Collected (f : Forest) (calls : List Call) (a : Aggregator) (f' : Forest) : Prop where
  linked : f'.Linked
  /-- There is one group for each number, in increasing order. -/
  ascending : (a.groups.map Group.id).Pairwise (· < ·)
  used : ∀ id, id ∈ a.groups.map Group.id ↔ id ∈ calls.map Call.id
  /-- The first call for a number decides what bounds its group. -/
  first : ∀ g ∈ a.groups, ∃ c, calls.find? (·.id == g.id) = some c ∧ g.anchor = c.anchor ∧
    g.kind = c.kind
  /-- The query lists of a group are in the order of first arrival: the parameters of its blocks,
  or the empty text for those that are no at-rules. -/
  queries : ∀ g ∈ a.groups, Registry.keys g.merged
    = ((calls.filter (·.id == g.id)).map (f.queryList ·.block)).eraseDups
  /-- Under a query list are the blocks that have it, joined, each as it was at its call, and
  there is none if no block has it. -/
  merged : ∀ g ∈ a.groups, ∀ k, (Registry.find? g.merged k).map f'.tree
    = joined (blocksOf f (found .start f calls) g.id k)
  /-- What is found there is a tree of its own, of new nodes only. -/
  apart : ∀ g ∈ a.groups, ∀ k n, Registry.find? g.merged k = some n →
    f'.parent? n = none ∧ ∀ m, f'.Within m n → f.size ≤ m
  captured : a.captured = calls.length
  /-- The blocks are out of their places, and nothing else has changed. -/
  frame : ∀ n < f.size, f'.get? n = (f.get? n).map (Entry.without (calls.map Call.block) n)

end Aggregator
end MediaGrouping
