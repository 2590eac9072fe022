/-
# Erasing nodes

To unwrap a node is to erase it: its children take its place, and it is left without a
parent and without children (`Linked.get?_unwrap_self`), a node that nothing which is
unwrapped later touches (`Linked.get?_unwrapAll_of_loose`). A tree that stands in the forest
is dissolved node by node (`Stands.erased`), so that each node is known once several have
been unwrapped: the ones kept (`Stands.parent?_unwrapAll`), the erased ones
(`Stands.get?_unwrapAll_of_mem`) and those of other trees (`Stands.get?_unwrapAll_of_not_mem`).
None of this depends on the order, and no more does the forest (`Stands.unwrapAll_perm`).
-/

import MediaGrouping.Proofs.Forest.Relinking
import MediaGrouping.Proofs.Forest.Rooted

namespace MediaGrouping

/-- The entry of a node that has been taken out and has lost its children. -/
def Entry.loose (e : Entry) : Entry := { e with parent := none, children := [] }

namespace Forest

variable {f g : Forest} {t : Planted} {n m p r : NodeId} {ns ms : List NodeId}

theorem ext_get? (h : ∀ n, f.get? n = g.get? n) : f = g :=
  congrArg Forest.mk (Array.ext_getElem? h)

theorem size_unwrapAll (f : Forest) (ns : List NodeId) :
    (ns.foldl Forest.unwrap f).size = f.size := by
  induction ns generalizing f with
  | nil => rfl
  | cons n ns ih => exact (ih (f.unwrap n)).trans (size_unwrap f n)

namespace Linked

/-- **What unwrapping a child does to an entry.** -/
theorem get?_unwrap {before after : List NodeId} (h : f.Linked) (hn : f.parent? n = some p)
    (hp : f.children p = before ++ n :: after) (m : NodeId) :
    (f.unwrap n).get? m = (f.get? m).map fun e =>
      { e with
        parent := if n = m then none else if m ∈ f.children n then some p else e.parent
        children := if n = m then [] else if p = m then before ++ f.children n ++ after
          else e.children } := by
  have hchild : n ∈ f.children p := h.parent_iff.1 hn
  have hself : ¬ f.Within p n := h.not_within_of_child hchild
  refine Forest.get?_unwrap hn rfl hp (hp ▸ h.nodup p) (h.nodup n) (fun he => ?_) (fun hc => ?_)
    (fun hc => ?_) m
  · exact hself (he ▸ .refl)
  · exact h.not_within_of_child hc .refl
  · exact hself (.single (h.parent_iff.2 hc))

/-- **A node that is unwrapped** loses its parent and its children, and nothing else. -/
theorem get?_unwrap_self (h : f.Linked) (hn : f.parent? n = some p) :
    (f.unwrap n).get? n = (f.get? n).map Entry.loose := by
  obtain ⟨before, after, hp⟩ := List.append_of_mem (h.parent_iff.1 hn)
  rw [h.get?_unwrap hn hp]
  simp only [if_true]
  rfl

/-- **A node without a parent and children** stays as it is when another one is unwrapped. -/
theorem get?_unwrap_of_loose {e : Entry} (h : f.Linked) (hm : f.get? m = some e.loose)
    (n : NodeId) : (f.unwrap n).get? m = some e.loose := by
  have hparent : f.parent? m = none := by rw [parent?, hm]; rfl
  have hchildren : f.children m = [] := children_of_get? hm
  cases hn : f.parent? n with
  | none => rw [Forest.unwrap, hn, hm]
  | some p =>
    have hchild : n ∈ f.children p := h.parent_iff.1 hn
    obtain ⟨before, after, hp⟩ := List.append_of_mem hchild
    have hnm : n ≠ m := fun he => Option.some_ne_none p (hn.symm.trans (he ▸ hparent))
    have hpm : p ≠ m := fun he => List.not_mem_nil (hchildren ▸ he ▸ hchild)
    have hcm : m ∉ f.children n := fun hc =>
      Option.some_ne_none n ((h.parent_iff.2 hc).symm.trans hparent)
    rw [h.get?_unwrap hn hp, hm, Option.map_some, if_neg hnm, if_neg hcm, if_neg hnm, if_neg hpm]

theorem get?_unwrapAll_of_loose {e : Entry} (h : f.Linked) (hm : f.get? m = some e.loose)
    (ns : List NodeId) :
    (ns.foldl Forest.unwrap f).get? m = some e.loose := by
  induction ns generalizing f with
  | nil => exact hm
  | cons n ns ih => exact ih (h.unwrap n).linked (h.get?_unwrap_of_loose hm n)

theorem unwrapAll (h : f.Linked) (ns : List NodeId) : (ns.foldl Forest.unwrap f).Linked := by
  induction ns generalizing f with
  | nil => exact h
  | cons n ns ih => exact ih (h.unwrap n).linked

end Linked

namespace Stands

variable (ht : f.Stands t) (hnd : ns.Nodup) (hns : ∀ n ∈ ns, n ∈ Planted.idsAll t.children)

include ht hns in
/-- The top of a tree is not below it. -/
theorem top_kept : ns.contains t.id = false := by
  rw [List.contains_eq_mem, decide_eq_false_iff_not]
  exact fun h => Planted.id_not_mem ht.nodup (hns _ h)

include ht hnd hns

/-- **Nodes below the top that are unwrapped, in any order, are erased from the tree.** -/
theorem erased : (ns.foldl Forest.unwrap f).Stands (t.dissolve ns.contains) ∧
    Spares f (ns.foldl Forest.unwrap f) [t.id] :=
  ht.unwrapAll ns hnd fun n hn => by
    rw [Planted.inner, Planted.sitesAll_map_id]
    exact hns n hn

/-- **A node that is kept** has the nearest of its ancestors that is kept as its parent. -/
theorem parent?_unwrapAll (hm : m ∈ t.ids) (hkept : m ∉ ns) :
    (ns.foldl Forest.unwrap f).parent? m = (f.ancestors m).find? (· ∉ ns) := by
  obtain ⟨x, hx, rfl⟩ := Planted.exists_site hm []
  have hx' : x.dissolve ns.contains ∈ (t.dissolve ns.contains).sites [] := by
    rw [Planted.sites_dissolve _ (ht.top_kept hns)]
    exact List.mem_map_of_mem (List.mem_filter.2 ⟨hx, by simpa using hkept⟩)
  have hparent := (ht.erased hnd hns).1.parent? hx'
  rw [Site.id_dissolve] at hparent
  rw [hparent, ht.ancestors hx, Site.dissolve, List.head?_filter, List.find?_map]
  congr 2
  funext l
  simp

/-- A node below the top that is not unwrapped keeps a parent, and what it is. -/
theorem exists_parent_unwrapAll (hm : m ∈ Planted.idsAll t.children) (hkept : m ∉ ns) :
    (∃ p, (ns.foldl Forest.unwrap f).parent? m = some p) ∧
      ((ns.foldl Forest.unwrap f).get? m).map Entry.loose = (f.get? m).map Entry.loose := by
  rw [← Planted.sitesAll_map_id [t.label]] at hm
  obtain ⟨x, hx, rfl⟩ := List.mem_map.1 hm
  have hx : x ∈ t.inner := hx
  have hstands := (ht.erased hnd hns).1
  have hinner : x.dissolve ns.contains ∈ (t.dissolve ns.contains).inner := by
    rw [Planted.inner_dissolve _ (ht.top_kept hns)]
    exact List.mem_map_of_mem (List.mem_filter.2 ⟨hx, by simpa using hkept⟩)
  have hsite := Planted.mem_sites_of_mem_inner hinner
  have hget := hstands.get? _ hsite
  have hparent := hstands.parent? hsite
  rw [Site.id_dissolve] at hget hparent
  constructor
  · obtain ⟨p, -, ha, -⟩ := Planted.exists_parent_of_inner hinner
    exact ⟨p.id, by rw [hparent, ha]; rfl⟩
  · rw [hget, ht.get? x (Planted.mem_sites_of_mem_inner hx)]
    simp only [Option.map_some, Entry.loose, Site.entry, Site.dissolve, Planted.content_dissolve,
      Planted.label_dissolve]

/-- **A node that is unwrapped** is left without a parent and without children. -/
theorem get?_unwrapAll_of_mem (h : f.Linked) (hm : m ∈ ns) :
    (ns.foldl Forest.unwrap f).get? m = (f.get? m).map Entry.loose := by
  -- it is still a node of the tree when it is its turn, and is left alone afterwards
  obtain ⟨early, late, rfl⟩ := List.append_of_mem hm
  obtain ⟨hearly, -, hdisjoint⟩ := List.nodup_append'.1 hnd
  obtain ⟨⟨p, hp⟩, hsame⟩ := ht.exists_parent_unwrapAll hearly
    (fun n hn => hns n (List.mem_append_left _ hn)) (hns m hm)
    fun hn => hdisjoint hn List.mem_cons_self
  have hlinked := h.unwrapAll early
  have hself := (hlinked.get?_unwrap_self hp).trans hsame
  obtain ⟨e, he⟩ := exists_get? (ht.lt_size (t.ids_eq ▸ List.mem_cons_of_mem _ (hns m hm)))
  rw [he] at hself ⊢
  rw [List.foldl_append, List.foldl_cons]
  exact (hlinked.unwrap m).linked.get?_unwrapAll_of_loose hself late

/-- **A node of another tree** stays as it is. -/
theorem get?_unwrapAll_of_not_mem (h : f.Linked) (hm : m ∉ t.ids) :
    (ns.foldl Forest.unwrap f).get? m = f.get? m := by
  rcases lt_or_ge m f.size with hlt | hge
  · obtain ⟨u, hu, -, x, hx, rfl⟩ := h.exists_site hlt
    have hne : u.id ∉ [t.id] := fun he => by
      obtain rfl := hu.eq_of_id_eq ht (List.mem_singleton.1 he)
      exact hm (Planted.id_mem_ids hx)
    rw [((ht.erased hnd hns).2.stands u hu hne).get? x hx, hu.get? x hx]
  · have hsize : (ns.foldl Forest.unwrap f).size ≤ m := by rwa [size_unwrapAll]
    exact (Array.getElem?_eq_none hsize).trans (Array.getElem?_eq_none hge).symm

/-- **The order does not matter** in which nodes are unwrapped. -/
theorem unwrapAll_perm (h : f.Linked) (hp : ms.Perm ns) :
    ms.foldl Forest.unwrap f = ns.foldl Forest.unwrap f := by
  have hmnd : ms.Nodup := hp.nodup_iff.2 hnd
  have hmns : ∀ n ∈ ms, n ∈ Planted.idsAll t.children := fun n hn => hns n (hp.mem_iff.1 hn)
  refine ext_get? fun n => ?_
  by_cases hn : n ∈ ns
  · rw [ht.get?_unwrapAll_of_mem hnd hns h hn,
      ht.get?_unwrapAll_of_mem hmnd hmns h (hp.mem_iff.2 hn)]
  by_cases hin : n ∈ t.ids
  · -- a node that is kept has the same site in either tree, as it is the same tree
    have hsame : ms.contains = ns.contains := funext fun k => by
      simp only [List.contains_eq_mem, hp.mem_iff]
    have hkept : n ∈ (t.dissolve ns.contains).ids := by
      rw [Planted.ids_dissolve _ (ht.top_kept hns)]
      exact List.mem_filter.2 ⟨hin, by simpa using hn⟩
    obtain ⟨x, hx, rfl⟩ := Planted.exists_site hkept []
    have hms := (ht.erased hmnd hmns).1
    rw [hsame] at hms
    rw [hms.get? x hx, (ht.erased hnd hns).1.get? x hx]
  · rw [ht.get?_unwrapAll_of_not_mem hnd hns h hin, ht.get?_unwrapAll_of_not_mem hmnd hmns h hin]

end Stands

/-- **Nodes below the root of a tree that are unwrapped, in any order, are erased.** The tree
is the one it was with the children of each such node in its place, and its nodes in pre-order
are the ones kept; a node that is kept has its nearest kept ancestor as its parent; one that is
erased has no parent and no children, and is otherwise what it was; and no node of another tree
changes. -/
theorem Linked.erased_of_unwrapAll (h : f.Linked) (hr : r < f.size) (htop : f.parent? r = none)
    (hnd : ns.Nodup) (hns : ∀ n ∈ ns, f.Within n r ∧ n ≠ r) :
    let f' := ns.foldl Forest.unwrap f
    (∃ t, t.id = r ∧ f.Stands t ∧ f'.Stands (t.dissolve ns.contains) ∧
      (t.dissolve ns.contains).ids = t.ids.filter (· ∉ ns)) ∧
    (∀ n, f.Within n r → n ∉ ns → f'.parent? n = (f.ancestors n).find? (· ∉ ns)) ∧
    (∀ n ∈ ns, f'.get? n = (f.get? n).map fun e => { e with parent := none, children := [] }) ∧
    (∀ n, ¬ f.Within n r → f'.get? n = f.get? n) ∧
    ∀ ms : List NodeId, ms.Perm ns → ms.foldl Forest.unwrap f = f' := by
  intro f'
  obtain ⟨t, ht⟩ := h.exists_branch r hr
  obtain rfl := ht.id
  have ht := ht.stands htop
  have hin : ∀ n ∈ ns, n ∈ Planted.idsAll t.children := fun n hn => by
    have hn := hns n hn
    rw [ht.within_iff h, Planted.ids_eq, List.mem_cons] at hn
    exact hn.1.resolve_left hn.2
  refine ⟨⟨t, rfl, ht, (ht.erased hnd hin).1, ?_⟩, fun n hn hkept => ?_, fun n hn => ?_,
    fun n hn => ?_, fun ms hp => ?_⟩
  · rw [Planted.ids_dissolve _ (ht.top_kept hin)]
    exact List.filter_congr fun n _ => by simp
  · exact ht.parent?_unwrapAll hnd hin ((ht.within_iff h).1 hn) hkept
  · exact ht.get?_unwrapAll_of_mem hnd hin h hn
  · exact ht.get?_unwrapAll_of_not_mem hnd hin h fun hm => hn ((ht.within_iff h).2 hm)
  · exact ht.unwrapAll_perm hnd hin h hp

theorem Linked.erased_of_unwrapAll_nested :
    let rule (name : String) := Tree.node (.rule name.toList) none
    let t := Tree.node .root none
      [rule "a" [rule "b" [rule "c" [], rule "d" []], rule "e" []], rule "g" []]
    let f := (Forest.empty.plant t).2
    let ns := [2, 4, 1]
    let f' := ns.foldl Forest.unwrap f
    f.Linked ∧ 0 < f.size ∧ f.parent? 0 = none ∧ ns.Nodup ∧
    (∀ n ∈ ns, f.Within n 0 ∧ n ≠ 0) ∧
    (∃ t, t.id = 0 ∧ f.Stands t ∧ f'.Stands (t.dissolve ns.contains) ∧
      (t.dissolve ns.contains).ids = t.ids.filter (· ∉ ns)) ∧
    (∀ n, f.Within n 0 → n ∉ ns → f'.parent? n = (f.ancestors n).find? (· ∉ ns)) ∧
    (∀ n ∈ ns, f'.get? n = (f.get? n).map fun e => { e with parent := none, children := [] }) ∧
    (∀ n, ¬ f.Within n 0 → f'.get? n = f.get? n) ∧
    ∀ ms : List NodeId, ms.Perm ns → ms.foldl Forest.unwrap f = f' := by
  intro rule t f ns f'
  have h : f.Linked := (linked_empty.plant _).1.linked
  have hsize : 0 < f.size := by decide +kernel
  have htop : f.parent? 0 = none := by decide +kernel
  have habove : ∀ n ∈ ns, 0 ∈ f.ancestors n ∧ n ≠ 0 := by decide +kernel
  have hns : ∀ n ∈ ns, f.Within n 0 ∧ n ≠ 0 := fun n hn =>
    ⟨within_of_mem_ancestorsUpTo _ (habove n hn).1, (habove n hn).2⟩
  exact ⟨h, hsize, htop, by decide, hns, h.erased_of_unwrapAll hsize htop (by decide) hns⟩

end Forest
end MediaGrouping
