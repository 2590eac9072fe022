/-
# Every node stands in a tree

The links of a linked forest lead up to a node without a parent after finitely many
steps, and down to nodes without children. So below a node there is a branch
(`Linked.exists_branch`), and every node has its site in a tree that stands in the forest
(`Linked.exists_site`).
-/

import MediaGrouping.Proofs.Forest.Links
import Mathlib.Data.Finset.Card

namespace MediaGrouping
namespace Forest

open Relation (ReflTransGen TransGen)

variable {f : Forest} {n m c p : NodeId}

/-- A relation without circles that relates only numbers below a bound is well-founded. -/
theorem wellFounded_of_acyclic {r : NodeId → NodeId → Prop} (bound : Nat)
    (hlt : ∀ {a b}, r a b → a < bound) (hr : ∀ a, ¬ TransGen r a a) : WellFounded r := by
  classical
  let before (b : NodeId) : Finset NodeId := (Finset.range bound).filter (TransGen r · b)
  refine Subrelation.wf (fun {a b} hab => Finset.card_lt_card ?_)
    (measure fun b => (before b).card).wf
  rw [Finset.ssubset_iff_of_subset]
  · refine ⟨a, ?_, fun ha => hr a (Finset.mem_filter.1 ha).2⟩
    exact Finset.mem_filter.2 ⟨Finset.mem_range.2 (hlt hab), .single hab⟩
  · intro x hx
    obtain ⟨hx, hxa⟩ := Finset.mem_filter.1 hx
    exact Finset.mem_filter.2 ⟨hx, hxa.tail hab⟩

/-- **The branch of a node**: its numbers are those of the nodes within the node, and the
forest has its entries, the top having the parent that it has in the forest. -/
structure Branch (f : Forest) (n : NodeId) (b : Planted) : Prop where
  id : b.id = n
  nodup : b.ids.Nodup
  within : ∀ m, m ∈ b.ids ↔ f.Within m n
  get? : ∀ above, above.head?.map Label.id = f.parent? n → ∀ x ∈ b.sites above,
    f.get? x.id = some x.entry

theorem Branch.stands {b : Planted} (h : f.Branch n b) (hn : f.parent? n = none) : f.Stands b :=
  ⟨h.get? [] hn.symm, h.nodup⟩

/-- Of two nodes above a node, one is within the other. -/
theorem within_or (hp : f.Within n p) (hm : f.Within n m) : f.Within p m ∨ f.Within m p :=
  ReflTransGen.total_of_right_unique
    (fun _ _ _ ha hb => Option.some.inj (Eq.trans (Eq.symm ha) hb)) hp hm

namespace Linked

/-- What is within one child of a node is not within another. -/
theorem eq_of_within_children (h : f.Linked) (hc : c ∈ f.children n) (hp : p ∈ f.children n)
    (hmc : f.Within m c) (hmp : f.Within m p) : c = p := by
  have key : ∀ {a b}, a ∈ f.children n → b ∈ f.children n → f.Within a b → a = b := by
    intro a b ha hb hab
    rcases hab.cases_head with rfl | ⟨q, hq, hqb⟩
    · rfl
    · obtain rfl := Option.some.inj (Eq.trans (Eq.symm hq) (h.parent_iff.2 ha))
      exact absurd hqb (h.not_within_of_child hb)
  rcases within_or hmc hmp with hw | hw
  · exact key hc hp hw
  · exact (key hp hc hw).symm

/-- The numbers of the branches of a node's children are those of the nodes below the node. -/
theorem mem_idsAll_branches {g : NodeId → Planted} (hg : ∀ c ∈ f.children n, f.Branch c (g c)) :
    m ∈ Planted.idsAll ((f.children n).map g) ↔ ∃ c ∈ f.children n, f.Within m c := by
  simp only [Planted.idsAll_eq, List.flatMap_map, List.mem_flatMap]
  exact exists_congr fun c => and_congr_right fun hc => (hg c hc).within m

/-- **The branch of a node** has the branches of its children. -/
theorem branch_node (h : f.Linked) {e : Entry} (he : f.get? n = some e) {g : NodeId → Planted}
    (hg : ∀ c ∈ f.children n, f.Branch c (g c)) :
    f.Branch n (.node ⟨n, e.content, e.source⟩ ((f.children n).map g)) where
  id := rfl
  nodup := by
    rw [Planted.ids, List.nodup_cons]
    constructor
    · intro hn
      obtain ⟨c, hc, hw⟩ := (mem_idsAll_branches hg).1 hn
      exact h.not_within_of_child hc hw
    · rw [Planted.idsAll_eq, List.flatMap_map, List.nodup_flatMap]
      refine ⟨fun c hc => (hg c hc).nodup, (h.nodup n).imp_of_mem fun {c p} hc hp hne => ?_⟩
      intro m hmc hmp
      exact hne (h.eq_of_within_children hc hp (((hg c hc).within m).1 hmc)
        (((hg p hp).within m).1 hmp))
  within m := by
    rw [Planted.ids, List.mem_cons, mem_idsAll_branches hg, Within, ReflTransGen.cases_tail_iff,
      eq_comm]
    refine or_congr_right (exists_congr fun c => ?_)
    rw [and_comm, ← h.parent_iff]
    rfl
  get? above ha x hx := by
    have hmap : ((f.children n).map g).map Planted.id = f.children n := by
      rw [List.map_map]
      exact (List.map_congr_left fun c hc => (hg c hc).id).trans (List.map_id _)
    rw [Planted.sites, List.mem_cons] at hx
    rcases hx with rfl | hx
    · rw [Site.id_mk, Planted.id_node, he, Site.entry, Planted.children_node, hmap, ha, parent?,
        he, children_of_get? he]
      rfl
    · obtain ⟨b, hb, hx⟩ := Planted.mem_sitesAll.1 hx
      obtain ⟨c, hc, rfl⟩ := List.mem_map.1 hb
      have hparent : f.parent? c = some n := h.parent_iff.2 hc
      exact (hg c hc).get? (⟨n, e.content, e.source⟩ :: above) hparent.symm x hx

/-- **Below every node there is a branch.** -/
theorem exists_branch (h : f.Linked) : ∀ n, n < f.size → ∃ b, f.Branch n b := by
  have hwf : WellFounded f.Under := wellFounded_of_acyclic f.size (fun hl => lt_size_of_parent? hl)
    h.acyclic
  intro n
  induction n using hwf.induction with
  | _ n ih =>
    intro hn
    obtain ⟨e, he⟩ := exists_get? hn
    have hbelow : ∀ c ∈ f.children n, ∃ b, f.Branch c b := fun c hc =>
      ih c (h.parent_iff.2 hc) (lt_size_of_parent? (h.parent_iff.2 hc))
    have : Nonempty Planted := ⟨.node ⟨n, e.content, e.source⟩ []⟩
    choose! g hg using hbelow
    exact ⟨_, h.branch_node he hg⟩

/-- Above every node there is one without a parent. -/
theorem exists_top (h : f.Linked) (n : NodeId) : ∃ p, f.Within n p ∧ f.parent? p = none := by
  have hwf : WellFounded (Function.swap f.Under) := by
    refine wellFounded_of_acyclic f.size (fun hl => ?_) fun a ha => ?_
    · exact lt_size_of_mem_children (h.parent_iff.1 hl)
    · exact h.acyclic a (Relation.transGen_swap.1 ha)
  induction n using hwf.induction with
  | _ n ih =>
    cases hp : f.parent? n with
    | none => exact ⟨n, .refl, hp⟩
    | some p =>
      obtain ⟨q, hq, hnone⟩ := ih p hp
      exact ⟨q, .head hp hq, hnone⟩

/-- **Every node of a linked forest stands in a tree.** -/
theorem exists_site (h : f.Linked) (hn : n < f.size) :
    ∃ t, f.Stands t ∧ f.Within n t.id ∧ ∃ x ∈ t.sites [], x.id = n := by
  obtain ⟨p, hp, hnone⟩ := h.exists_top n
  have hlt : p < f.size := by
    rcases hp.cases_tail with rfl | ⟨c, -, hc⟩
    · exact hn
    · exact lt_size_of_mem_children (h.parent_iff.1 hc)
  obtain ⟨b, hb⟩ := h.exists_branch p hlt
  exact ⟨b, hb.stands hnone, hb.id.symm ▸ hp, Planted.exists_site ((hb.within n).2 hp) []⟩

end Linked

/-- The nodes within the top of a standing tree are those of the tree. -/
theorem Stands.within_iff {t : Planted} (ht : f.Stands t) (h : f.Linked) :
    f.Within n t.id ↔ n ∈ t.ids := by
  obtain ⟨b, hb⟩ := h.exists_branch t.id (ht.lt_size t.self_mem_ids)
  obtain rfl : b = t := (hb.stands ht.parent?_top).eq_of_id_eq ht hb.id
  exact (hb.within n).symm

/-! ### Walks -/

/-- A walk downwards is the same under every bound that the tree stays below. -/
theorem Stands.descendantsUpTo_eq {t : Planted} (h : f.Stands t) :
    ∀ (k l : Nat) {x : Site}, x ∈ t.sites [] → x.here.height ≤ k + 1 → x.here.height ≤ l + 1 →
      f.descendantsUpTo k x.id = f.descendantsUpTo l x.id := by
  have hleaf : ∀ (limit : Nat) {x : Site}, x ∈ t.sites [] → x.here.height ≤ 1 →
      f.descendantsUpTo limit x.id = [] := by
    intro limit x hx hl
    obtain ⟨above, b, cs⟩ := x
    rw [Planted.height] at hl
    have hcs : cs = [] := Planted.eq_nil_of_heightAll (Nat.le_zero.1 (Nat.le_of_succ_le_succ hl))
    cases limit with
    | zero => rfl
    | succ limit => rw [descendantsUpTo, h.children hx, Planted.children_node, hcs]; rfl
  intro k
  induction k with
  | zero => intro l x hx hk _; rw [hleaf 0 hx hk, hleaf l hx hk]
  | succ k ih =>
    intro l x hx hk hl
    cases l with
    | zero => rw [hleaf _ hx hl, hleaf 0 hx hl]
    | succ l =>
      rw [descendantsUpTo, descendantsUpTo, h.children hx, List.flatMap_map, List.flatMap_map]
      refine List.flatMap_congr fun c hc => ?_
      have hh := Planted.height_le_heightAll hc
      obtain ⟨above, b, cs⟩ := x
      rw [Planted.height] at hk hl
      rw [Planted.children_node] at hh
      have hsame := ih l (Planted.child_mem_sites hx hc) (hh.trans (Nat.le_of_succ_le_succ hk))
        (hh.trans (Nat.le_of_succ_le_succ hl))
      rw [Site.id_mk] at hsame
      rw [hsame]

namespace Linked

/-- A bound that is at least the size of a forest bounds no walk in it. -/
theorem ancestorsUpTo_of_le (h : f.Linked) {limit : Nat} (hl : f.size ≤ limit) (n : NodeId) :
    f.ancestorsUpTo limit n = f.ancestors n := by
  rcases lt_or_ge n f.size with hn | hn
  · obtain ⟨t, ht, -, x, hx, rfl⟩ := h.exists_site hn
    have hdeep := ht.above_add_height_le hx
    rw [ht.ancestorsUpTo_site limit hx (by omega), ht.ancestors hx]
  · have hnone : f.parent? n = none := by rw [parent?, get?, Array.getElem?_eq_none hn]; rfl
    have hnil : ∀ limit, f.ancestorsUpTo limit n = [] := fun limit => by
      cases limit with
      | zero => rfl
      | succ limit => rw [ancestorsUpTo, hnone]
    rw [ancestors, hnil, hnil]

theorem descendantsUpTo_of_le (h : f.Linked) {limit : Nat} (hl : f.size ≤ limit) (n : NodeId) :
    f.descendantsUpTo limit n = f.descendants n := by
  rcases lt_or_ge n f.size with hn | hn
  · obtain ⟨t, ht, -, x, hx, rfl⟩ := h.exists_site hn
    have hdeep := ht.above_add_height_le hx
    exact ht.descendantsUpTo_eq limit f.size hx (by omega) (by omega)
  · have hnil : ∀ limit, f.descendantsUpTo limit n = [] := fun limit => by
      cases limit with
      | zero => rfl
      | succ limit => rw [descendantsUpTo, children_eq_nil hn]; rfl
    rw [descendants, hnil, hnil]

theorem treeUpTo_of_le (h : f.Linked) {limit : Nat} (hl : f.size ≤ limit) (n : NodeId) :
    f.treeUpTo limit n = f.tree? n := by
  rcases lt_or_ge n f.size with hn | hn
  · obtain ⟨t, ht, -, x, hx, rfl⟩ := h.exists_site hn
    have hdeep := ht.above_add_height_le hx
    rw [tree?, ht.treeUpTo_site limit hx (by omega), ht.treeUpTo_site f.size hx (by omega)]
  · have hnone : ∀ limit, f.treeUpTo limit n = none := fun limit => by
      cases limit with
      | zero => rfl
      | succ limit => rw [treeUpTo, get?, Array.getElem?_eq_none hn]; rfl
    rw [tree?, hnone, hnone]

end Linked
end Forest
end MediaGrouping
