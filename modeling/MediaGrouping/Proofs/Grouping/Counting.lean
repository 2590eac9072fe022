/-
# Counting nodes

How many nodes satisfy a test before and after each step of a run, for a test that
grouping does not upset (`Steady`): it does not look at blocks, rejects foreign
at-rules, and says the same of all blocks that are grouped, and of all wrappers. Taking
a block away takes its nodes away (`Planted.tally_prune_gone`); merging loses a node
for every block that finds its query list known (`Grouping.tally_merged`); putting
groups back adds the merged blocks and loses their wrappers (`Planted.tally_restored`).
-/

import MediaGrouping.Proofs.Grouping.WrapperFree
import Mathlib.Algebra.BigOperators.Ring.Finset

namespace MediaGrouping

open Grouping (foreignRule? mediaName mergeBlock merged sorted)

/-- **A test that grouping does not upset**: `media` is what every block counts, and
`wrapper` what every wrapper counts. -/
structure Steady (o : Options) (p : Content → Bool) (media wrapper : Nat) : Prop where
  blind : ∀ c : Content, p c.withBlock = p c
  foreign : ∀ c, Scope.foreign o mediaName c = true → p c = false
  media : ∀ c : Content, c.isAtRuleNamed mediaName = true → (p c).toNat = media
  wrapper : ∀ c, o.wraps c = true → (p c).toNat = wrapper

theorem Content.isAtRuleNamed_of_leaf {name : Text} (c : Content) (h : c.isContainer = false) :
    c.isAtRuleNamed name = false := by
  cases c with
  | atRule r => cases h
  | root | rule | declaration | comment => rfl

/-- Blocks are counted once, and no wrapper is a block. -/
theorem Steady.blocks {o : Options} (hm : o.SparesMedia) :
    Steady o (Content.isAtRuleNamed mediaName) 1 0 where
  blind := fun c => c.isAtRuleNamed_withBlock mediaName
  foreign := fun c hf => by
    rw [Bool.eq_false_iff]
    intro hc
    rw [Scope.foreign_of_named hc] at hf
    cases hf
  media := fun c hc => by rw [hc]; rfl
  wrapper := fun c hw => by
    cases hc : c.isAtRuleNamed mediaName with
    | false => rfl
    | true =>
      rw [hm.wraps hc] at hw
      cases hw

/-- Wrappers are counted once, and no block is a wrapper. -/
theorem Steady.wrappers {o : Options} (hb : o.Blind) (hm : o.SparesMedia) :
    Steady o o.wraps 0 1 where
  blind := hb.wraps_withBlock
  foreign := fun _ => Scope.wraps_of_foreign
  media := fun c hc => by rw [hm.wraps hc]; rfl
  wrapper := fun c hw => by rw [hw]; rfl

namespace Tree

/-- How many nodes of trees satisfy a test. -/
def tally (p : Content → Bool) (ts : List Tree) : Nat := (contentsAll ts).countP p

variable {o : Options} {p : Content → Bool} {t : Tree} {ts us : List Tree} {rule : AtRule}
  {media wrapper : Nat}

@[simp] theorem tally_nil : tally p [] = 0 := rfl

@[simp] theorem tally_cons (t : Tree) (ts : List Tree) :
    tally p (t :: ts) = t.contents.countP p + tally p ts := by
  rw [tally, contentsAll, List.countP_append, tally]

@[simp] theorem tally_append (ts us : List Tree) :
    tally p (ts ++ us) = tally p ts + tally p us := by
  induction ts with
  | nil => simp
  | cons t ts ih => simp only [List.cons_append, tally_cons, ih, Nat.add_assoc]

theorem tally_eq_sum (ts : List Tree) :
    tally p ts = (ts.map fun t => t.contents.countP p).sum := by
  induction ts with
  | nil => rfl
  | cons t ts ih => rw [tally_cons, ih, List.map_cons, List.sum_cons]

theorem tally_perm (h : ts.Perm us) : tally p ts = tally p us := by
  rw [tally_eq_sum, tally_eq_sum]
  exact (h.map _).sum_eq

/-- A tree counts its top and what is below. -/
theorem countP_contents (t : Tree) :
    t.contents.countP p = (p t.content).toNat + tally p t.children := by
  obtain ⟨c, s, cs⟩ := t
  rw [contents, List.countP_cons, Nat.add_comm]
  cases h : p c <;> simp [content, children, tally, h]

/-- **More children** count what they count. -/
theorem countP_extend (hp : ∀ c : Content, p c.withBlock = p c) (t : Tree) (us : List Tree) :
    (t.extend us).contents.countP p = t.contents.countP p + tally p us := by
  have hcontent : p (t.extend us).content = p t.content := by
    rcases content_extend t us with he | he
    · rw [he]
    · rw [he, hp]
  rw [countP_contents, countP_contents t, hcontent, children_extend, tally_append, Nat.add_assoc]

/-- Enclosing a block adds a foreign at-rule, which does not count. -/
theorem countP_enclosed (hp : ∀ c : Content, p c.withBlock = p c) (hr : p (.atRule rule) = false)
    (t : Tree) : (t.enclosed rule).contents.countP p = t.contents.countP p := by
  have hcopy : p (.atRule { rule with hasBlock := true }) = false := (hp (.atRule rule)).trans hr
  rw [countP_contents, countP_contents t, enclosed]
  simp only [content, children, tally_cons, tally_nil, countP_contents, hp, hcopy,
    Bool.toNat_false, Nat.zero_add, Nat.add_zero]

/-- **Dissolving** loses wrappers only. -/
theorem tally_dissolveAll (hw : ∀ c, o.wraps c = true → p c = false) :
    ∀ ts : List Tree, tally p (dissolveAll o ts) = tally p ts
  | [] => by rw [dissolveAll]
  | .node c s cs :: ts => by
    have hcs := tally_dissolveAll hw cs
    have hts := tally_dissolveAll hw ts
    have hnode : ∀ ds, (node c s ds).contents.countP p = (p c).toNat + tally p ds :=
      fun ds => countP_contents (.node c s ds)
    rw [dissolveAll_node, tally_cons, hnode]
    split_ifs with h
    · rw [tally_append, hcs, hts, hw c h, Bool.toNat_false, Nat.zero_add]
    · rw [tally_cons, hnode, hcs, hts]

end Tree

open MediaGrouping.Tree (tally)

namespace Grouping

variable {o : Options} {p : Content → Bool} {media wrapper : Nat} {t : Tree} {ts : List Tree}
  {r : Registry Tree}

/-- Merging a block with a known query list loses a block; otherwise there is one more
merged block. -/
theorem tally_mergeBlock (hp : Steady o p media wrapper) (r : Registry Tree)
    (ht : t.isMedia = true) :
    tally p ((mergeBlock r t).map Prod.snd) + media * (r.length + 1)
      = tally p (r.map Prod.snd) + t.contents.countP p + media * (mergeBlock r t).length := by
  cases hf : Registry.find? r t.query with
  | none =>
    rw [mergeBlock_of_none hf, List.map_append, Tree.tally_append, List.length_append]
    simp
  | some u =>
    obtain ⟨before, after, hsplit, hmerge⟩ := mergeBlock_of_some hf
    have htop := Tree.countP_contents (p := p) t
    have hextend := Tree.countP_extend hp.blind u t.children
    rw [hp.media t.content ht] at htop
    rw [hmerge, hsplit]
    simp only [List.map_append, List.map_cons, Tree.tally_append, Tree.tally_cons,
      List.length_append, List.length_cons, Nat.mul_add, hextend, htop]
    omega

/-- **Merging blocks** counts them once for every query list. -/
theorem tally_merged (hp : Steady o p media wrapper) (ht : ∀ t ∈ ts, t.isMedia = true) :
    tally p ((merged ts).map Prod.snd) + media * ts.length
      = tally p ts + media * (merged ts).length := by
  have hfold : ∀ (ts : List Tree) (r : Registry Tree), (∀ t ∈ ts, t.isMedia = true) →
      tally p ((ts.foldl mergeBlock r).map Prod.snd) + media * (r.length + ts.length)
        = tally p (r.map Prod.snd) + tally p ts + media * (ts.foldl mergeBlock r).length := by
    intro ts
    induction ts with
    | nil => intro r _; simp
    | cons t ts ih =>
      intro r ht
      rw [List.forall_mem_cons] at ht
      have hstep := tally_mergeBlock hp r ht.1
      have hrest := ih (mergeBlock r t) ht.2
      rw [List.foldl_cons, Tree.tally_cons, List.length_cons]
      simp only [Nat.mul_add] at hstep hrest ⊢
      omega
  have h := hfold ts [] ht
  rwa [List.length_nil, Nat.zero_add, List.map_nil, Tree.tally_nil, Nat.zero_add] at h

/-- The annotation at the end of a sheet is a comment. -/
theorem tally_annotationOf {cs : List Tree}
    (hp : ∀ c : Content, c.isContainer = false → p c = false) (hb : ∀ c ∈ cs, c.Branch) :
    tally p (annotationOf cs).toList = 0 := by
  cases ha : annotationOf cs with
  | none => rfl
  | some c =>
    obtain ⟨hc, hann⟩ := mem_of_annotationOf ha
    obtain ⟨k, hk⟩ := exists_comment_of_annotation hann
    have hcontainer : c.content.isContainer = false := by
      rw [hk]
      rfl
    rw [Option.toList_some, Tree.tally_cons, Tree.countP_contents, hp _ hcontainer,
      (hb c hc).children_eq_nil hcontainer]
    rfl

end Grouping

theorem Site.query_parcel (o : Options) (x : Site) : (x.parcel o).query = x.here.tree.query := by
  rw [parcel]
  cases x.foreignRule? o with
  | none => rfl
  | some rule => exact Tree.query_enclosed rule _

theorem Site.isMedia_parcel (o : Options) (x : Site) : (x.parcel o).isMedia = x.isMedia := by
  rw [parcel, isMedia, ← Planted.isMedia_tree]
  cases x.foreignRule? o with
  | none => rfl
  | some rule => exact Tree.isMedia_enclosed rule _

/-- A block counts as much when it has left as before. -/
theorem Site.countP_parcel {o : Options} {p : Content → Bool} {media wrapper : Nat}
    (hp : Steady o p media wrapper) (x : Site) :
    (x.parcel o).contents.countP p = x.here.tree.contents.countP p := by
  rw [parcel]
  cases hr : x.foreignRule? o with
  | none => rfl
  | some rule =>
    obtain ⟨l, hl, hc⟩ := Option.bind_eq_some_iff.1 hr
    have hf := (Option.filter_eq_some_iff.1 hl).2
    have hrule : p (.atRule rule) = false := by
      rw [← Content.eq_of_atRule? hc]
      exact hp.foreign _ hf
    exact Tree.countP_enclosed hp.blind hrule _

namespace Planted

variable {o : Options} {p : Content → Bool} {media wrapper : Nat} {t : Planted} {x : Site}
  {done : List Site} {table : Table} {all : List NodeId}

mutual

theorem map_content_sites (above : List Label) :
    ∀ t : Planted, (t.sites above).map (·.here.content) = t.tree.contents
  | .node l cs => by
    rw [sites, List.map_cons, map_content_sitesAll (l :: above) cs, tree, Tree.contents]
    rfl

/-- What the sites of trees are is what the nodes of the trees are. -/
theorem map_content_sitesAll (above : List Label) :
    ∀ ts : List Planted, (sitesAll above ts).map (·.here.content) = Tree.contentsAll (trees ts)
  | [] => rfl
  | t :: ts => by
    rw [sitesAll, List.map_append, map_content_sites above t, map_content_sitesAll above ts, trees,
      Tree.contentsAll]

end

/-- The sites below the top that satisfy a test are counted. -/
theorem length_filter_inner (p : Content → Bool) (t : Planted) :
    (t.inner.filter (p ·.here.content)).length = tally p (trees t.children) := by
  rw [tally, ← map_content_sitesAll [t.label], List.countP_map, List.countP_eq_length_filter]
  rfl

/-- **Cutting a branch off** takes its nodes away. -/
theorem tally_pruneAll : ∀ {above : List Label} {ts : List Planted}, (idsAll ts).Nodup →
    x ∈ sitesAll above ts →
      tally p (trees (pruneAll (· == x.id) ts)) + x.here.tree.contents.countP p
        = tally p (trees ts)
  | _, [], _, hx => absurd hx List.not_mem_nil
  | above, .node l cs :: ts, hn, hx => by
    rw [idsAll, ids, List.nodup_append'] at hn
    obtain ⟨hcs, hts, hdisj⟩ := hn
    obtain ⟨hl, hcs⟩ := List.nodup_cons.1 hcs
    rw [sitesAll, sites, List.cons_append, List.mem_cons, List.mem_append] at hx
    have hkept : x.id ∈ l.id :: idsAll cs → pruneAll (· == x.id) ts = ts := fun hm =>
      pruneAll_of_kept fun n hn => beq_eq_false_iff_ne.2 fun he => hdisj hm (he ▸ hn)
    rcases hx with rfl | hx | hx
    · rw [pruneAll, if_pos (by simp), hkept List.mem_cons_self, trees, Tree.tally_cons,
        Nat.add_comm]
    · have hm : x.id ∈ idsAll cs := by
        rw [← sitesAll_map_id (l :: above)]
        exact List.mem_map_of_mem hx
      have hne : (l.id == x.id) = false := beq_eq_false_iff_ne.2 fun he => hl (he ▸ hm)
      have ih := tally_pruneAll hcs hx
      rw [pruneAll, id_node, hne, if_neg Bool.false_ne_true, hkept (List.mem_cons_of_mem _ hm),
        prune, trees, trees, Tree.tally_cons, Tree.tally_cons, Tree.countP_contents,
        Tree.countP_contents (tree (node l cs)), tree, tree]
      simp only [Tree.content, Tree.children]
      omega
    · have hm : x.id ∈ idsAll ts := by
        rw [← sitesAll_map_id above]
        exact List.mem_map_of_mem hx
      have hfirst : (node l cs).prune (· == x.id) = node l cs := prune_of_kept fun n hn =>
        beq_eq_false_iff_ne.2 fun he => hdisj (List.mem_cons_of_mem _ (he ▸ hn)) hm
      have hne : (l.id == x.id) = false := beq_eq_false_iff_ne.2 fun he =>
        hdisj (he ▸ List.mem_cons_self) hm
      have ih := tally_pruneAll hts hx
      rw [pruneAll, id_node, hne, if_neg Bool.false_ne_true, hfirst, trees, trees,
        Tree.tally_cons, Tree.tally_cons]
      omega

theorem tally_prune (hn : t.ids.Nodup) (hx : x ∈ t.inner) :
    tally p (trees (t.prune (· == x.id)).children) + x.here.tree.contents.countP p
      = tally p (trees t.children) := by
  rw [children_prune]
  exact tally_pruneAll (nodup_idsAll hn) hx

/-- **Blocks that leave a sheet** take their nodes with them. -/
theorem tally_prune_gone (hn : t.ids.Nodup) :
    ∀ {done : List Site}, (∀ y ∈ done, y ∈ t.inner ∧ y.isMedia = true) →
      (done.map Site.id).Nodup →
      tally p (trees (t.prune (gone o done)).children)
          + ((done.filter (Site.leaves o)).map (·.here.tree.contents.countP p)).sum
        = tally p (trees t.children) := by
  intro done
  induction done using List.reverseRecOn with
  | nil =>
    intro _ _
    have hp : t.prune (gone o []) = t := prune_of_kept fun _ _ => rfl
    rw [hp, List.filter_nil, List.map_nil, List.sum_nil, Nat.add_zero]
  | append_singleton done x ih =>
    intro hdone hnodup
    rw [List.forall_mem_append, List.forall_mem_singleton] at hdone
    rw [List.map_append, List.nodup_append'] at hnodup
    obtain ⟨hdone, hx, hxm⟩ := hdone
    obtain ⟨hnodup, -, hdisj⟩ := hnodup
    have hrest := ih hdone hnodup
    rw [List.filter_append, List.map_append, List.sum_append]
    cases hl : x.leaves o with
    | false =>
      rw [gone_append_of_stays hl, List.filter_cons_of_neg (by simp [hl])]
      exact hrest
    | true =>
      -- no block is above one that leaves, so those before it have taken nothing of it
      have hmem := mem_inner_prune_gone (o := o) hn hdone hx hxm
        (fun y hy he => hdisj (List.mem_map_of_mem hy) (he ▸ List.mem_cons_self))
        fun y hy _ => Site.label_not_mem_above hl (hdone y hy).2
      have hids : (t.prune (gone o done)).ids.Nodup := by
        refine hn.sublist (ids_prune_sublist _ ?_)
        rw [Bool.eq_false_iff]
        intro hg
        obtain ⟨y, hy, -, hi⟩ := gone_iff.1 hg
        exact top_ne_inner hn (hdone y hy).1 hi.symm
      have hstep := tally_prune (p := p) hids hmem
      rw [gone_append_of_leaves hl, ← prune_prune, List.filter_cons_of_pos hl, List.filter_nil,
        List.map_singleton, List.sum_singleton]
      omega

/-- **Nodes right below the root**, once the groups of some anchors are put back. -/
theorem tally_flatMap_reopened (o : Options) (table : Table) (cs : List Planted)
    (hw : ∀ c ∈ cs, c.id ∈ all → (p c.content).toNat = wrapper) :
    tally p (trees (cs.flatMap (reopened o table all)))
        + wrapper * (cs.filter (·.id ∈ all)).length
      = tally p (trees cs)
        + ((cs.filter (·.id ∈ all)).map fun c => tally p (trees (sorted o (table c.id)))).sum := by
  induction cs with
  | nil => rfl
  | cons c cs ih =>
    rw [List.forall_mem_cons] at hw
    have ih := ih hw.2
    have htop := Tree.countP_contents (p := p) c.tree
    rw [content_tree, children_tree] at htop
    rw [List.flatMap_cons, trees_append, Tree.tally_append, trees, Tree.tally_cons, reopened]
    by_cases hc : c.id ∈ all
    · rw [hw.1 hc] at htop
      rw [if_pos hc, List.filter_cons_of_pos (by simpa using hc), List.length_cons, List.map_cons,
        List.sum_cons, trees_append, Tree.tally_append, Nat.mul_succ]
      omega
    · rw [if_neg hc, List.filter_cons_of_neg (by simpa using hc), trees, trees, Tree.tally_cons,
        Tree.tally_nil]
      omega

/-- Anchors that are the root or right below it, in the order of the sheet. -/
theorem filter_anchors_perm (hall : all.Nodup) (hn : t.ids.Nodup)
    (hmem : ∀ n ∈ all, n = t.id ∨ ∃ c ∈ t.children, c.id = n) :
    ((t.id :: t.children.map id).filter (· ∈ all)).Perm all := by
  rw [List.perm_ext_iff_of_nodup _ hall]
  · intro n
    rw [List.mem_filter, decide_eq_true_eq, List.mem_cons, List.mem_map]
    exact ⟨And.right, fun h => ⟨hmem n h, h⟩⟩
  · refine List.Nodup.filter _ ?_
    rw [ids_eq] at hn
    exact hn.sublist (List.Sublist.cons_cons _ (map_id_sublist _))

/-- A sum over such anchors, the root's part first. -/
theorem sum_anchors (g : NodeId → Nat) (hall : all.Nodup) (hn : t.ids.Nodup)
    (hmem : ∀ n ∈ all, n = t.id ∨ ∃ c ∈ t.children, c.id = n) :
    ∑ n ∈ all.toFinset, g n = (if t.id ∈ all then g t.id else 0)
      + ((t.children.filter (·.id ∈ all)).map fun c => g c.id).sum := by
  have hmap : (t.children.map id).filter (· ∈ all) = (t.children.filter (·.id ∈ all)).map id := by
    rw [List.filter_map]
    rfl
  rw [List.sum_toFinset _ hall, ← ((filter_anchors_perm hall hn hmem).map _).sum_eq,
    List.filter_cons, hmap]
  by_cases ht : t.id ∈ all
  · rw [if_pos (by simpa using ht), if_pos ht, List.map_cons, List.sum_cons, List.map_map]
    rfl
  · rw [if_neg (by simpa using ht), if_neg ht, Nat.zero_add, List.map_map]
    rfl

/-- **Putting groups back** adds the merged blocks, and loses the wrappers they were in. -/
theorem tally_restored (o : Options) (p : Content → Bool) (table : Table) (wrapper : Nat)
    (hall : all.Nodup) (hn : t.ids.Nodup)
    (hmem : ∀ n ∈ all, n = t.id ∨ ∃ c ∈ t.children, c.id = n)
    (hw : ∀ c ∈ t.children, c.id ∈ all → (p c.content).toNat = wrapper) :
    tally p (trees (t.restored o table all).children)
        + wrapper * (t.children.filter (·.id ∈ all)).length
      = tally p (trees t.children)
        + ∑ n ∈ all.toFinset, tally p (trees (sorted o (table n))) := by
  have hkids := tally_flatMap_reopened o table t.children hw
  rw [restored, children_node, trees_append, Tree.tally_append, sum_anchors _ hall hn hmem]
  split_ifs
  · omega
  · rw [trees, Tree.tally_nil]
    omega

end Planted

/-- A block leaves for one anchor. -/
theorem Site.eq_of_homed {o : Options} {x : Site} {n m : NodeId} (hn : x.homed o n = true)
    (hm : x.homed o m = true) : n = m := by
  obtain ⟨-, a, ha, rfl, -⟩ := Planted.homed_iff.1 hn
  obtain ⟨-, b, hb, rfl, -⟩ := Planted.homed_iff.1 hm
  rw [Option.some.inj (ha.symm.trans hb)]

/-- **The blocks that leave, by anchor**, are all blocks that leave. -/
theorem sum_homed {o : Options} (g : Site → Nat) {anchors : Finset NodeId} :
    ∀ {done : List Site}, (∀ x ∈ done, ∀ n, x.homed o n = true → n ∈ anchors) →
      ∑ n ∈ anchors, ((done.filter (Site.homed o n)).map g).sum
        = ((done.filter (Site.leaves o)).map g).sum := by
  intro done
  induction done with
  | nil => intro _; simp
  | cons x done ih =>
    intro h
    rw [List.forall_mem_cons] at h
    have ih := ih h.2
    have hcons : ∀ n, (((x :: done).filter (Site.homed o n)).map g).sum
        = (if x.homed o n = true then g x else 0)
          + ((done.filter (Site.homed o n)).map g).sum := fun n => by
      rw [List.filter_cons]
      split_ifs
      · rw [List.map_cons, List.sum_cons]
      · rw [Nat.zero_add]
    simp only [hcons]
    rw [Finset.sum_add_distrib, ih, List.filter_cons]
    by_cases hl : x.leaves o = true
    · obtain ⟨a, ha⟩ := Site.exists_homed hl
      have hhomed : ∀ n, x.homed o n = true ↔ a = n := fun n =>
        ⟨Site.eq_of_homed ha, fun he => he ▸ ha⟩
      simp only [hhomed]
      rw [Finset.sum_ite_eq, if_pos (h.1 a ha), if_pos hl, List.map_cons,
        List.sum_cons]
    · have hhomed : ∀ n, x.homed o n ≠ true := fun n hh => hl (Site.leaves_of_homed hh)
      rw [if_neg hl, Finset.sum_eq_zero fun n _ => if_neg (hhomed n), Nat.zero_add]

end MediaGrouping
