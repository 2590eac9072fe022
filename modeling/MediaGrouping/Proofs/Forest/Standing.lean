/-
# Trees that stand in a forest

A planted tree stands in a forest if the forest has its entries, the top being
without a parent. What the forest says of a node then is what its site says: its
parent, its children, its ancestors (`Stands.ancestors`), the nodes below it
(`Stands.descendants`) and its tree (`Stands.tree_site`). Two trees that stand in
a forest share a node only if they have the same top (`Stands.id_eq`), so that a
change to one leaves the others standing.
-/

import MediaGrouping.Forest.Walk
import MediaGrouping.Proofs.Forest.Changes
import Mathlib.Data.List.Perm.Subperm
import Mathlib.Data.List.Range

namespace MediaGrouping

/-- Only nodes that a search looks into have children. -/
def Planted.Contained (t : Planted) : Prop :=
  ∀ x ∈ t.sites [], x.here.content.isContainer = false → x.here.children = []

namespace Forest

/-- A forest has the entries of a tree, whose top has no parent. -/
structure Stands (f : Forest) (t : Planted) : Prop where
  get? : ∀ x ∈ t.sites [], f.get? x.id = some x.entry
  nodup : t.ids.Nodup

variable {f : Forest} {t u : Planted} {x y : Site}

theorem lt_size_of_get? {n : NodeId} {e : Entry} (h : f.get? n = some e) : n < f.size :=
  (Array.getElem?_eq_some_iff.1 h).1

namespace Stands

theorem parent? (h : f.Stands t) (hx : x ∈ t.sites []) :
    f.parent? x.id = x.above.head?.map Label.id := by
  rw [Forest.parent?, h.get? x hx]; rfl

theorem children (h : f.Stands t) (hx : x ∈ t.sites []) :
    f.children x.id = x.here.children.map Planted.id := by
  rw [Forest.children, h.get? x hx]; rfl

theorem content? (h : f.Stands t) (hx : x ∈ t.sites []) :
    f.content? x.id = some x.here.content := by
  rw [Forest.content?, h.get? x hx]; rfl

theorem source? (h : f.Stands t) (hx : x ∈ t.sites []) : f.source? x.id = x.here.label.source := by
  rw [Forest.source?, h.get? x hx]; rfl

theorem holds (h : f.Stands t) (hx : x ∈ t.sites []) (test : Content → Bool) :
    f.holds test x.id = test x.here.content := by
  rw [Forest.holds, h.content? hx]; rfl

theorem atRule? (h : f.Stands t) (hx : x ∈ t.sites []) :
    f.atRule? x.id = x.here.content.atRule? := by
  rw [Forest.atRule?, h.content? hx]; rfl

theorem parent?_top (h : f.Stands t) : f.parent? t.id = none :=
  h.parent? (t.self_mem_sites [])

theorem lt_size (h : f.Stands t) {n : NodeId} (hn : n ∈ t.ids) : n < f.size := by
  obtain ⟨x, hx, rfl⟩ := Planted.exists_site hn []
  exact lt_size_of_get? (h.get? x hx)

theorem height_le_size (h : f.Stands t) : t.height ≤ f.size := by
  have hs : t.ids.Subperm (List.range f.size) :=
    List.subperm_of_subset h.nodup fun n hn => List.mem_range.2 (h.lt_size hn)
  calc t.height ≤ t.ids.length := t.height_le_length
    _ ≤ (List.range f.size).length := hs.length_le
    _ = f.size := List.length_range

/-- Above and below a site there are no more levels than the forest has nodes. -/
theorem above_add_height_le (h : f.Stands t) (hx : x ∈ t.sites []) :
    x.above.length + x.here.height ≤ f.size := by
  have hdeep := Planted.above_add_height hx
  rw [List.length_nil, Nat.zero_add] at hdeep
  exact hdeep.trans h.height_le_size

/-- A site without labels above it is the top. -/
theorem eq_top_of_parent? (h : f.Stands t) (hx : x ∈ t.sites []) (hp : f.parent? x.id = none) :
    x = ⟨[], t⟩ := by
  rcases Planted.exists_parent hx with rfl | ⟨p, -, ha, -⟩
  · rfl
  · rw [h.parent? hx, ha] at hp
    cases hp

theorem top_eq (ht : f.Stands t) (hu : f.Stands u) :
    ∀ (k : Nat) {x y : Site}, x.above.length = k → x ∈ t.sites [] → y ∈ u.sites [] →
      x.id = y.id → t.id = u.id := by
  intro k
  induction k with
  | zero =>
    intro x y hk hx hy hi
    have hp : f.parent? x.id = none := by
      rw [ht.parent? hx, List.length_eq_zero_iff.1 hk]; rfl
    have hx' := ht.eq_top_of_parent? hx hp
    have hy' := hu.eq_top_of_parent? hy (hi ▸ hp)
    rw [hx', hy'] at hi
    exact hi
  | succ k ih =>
    intro x y hk hx hy hi
    rcases Planted.exists_parent hx with rfl | ⟨p, hp, ha, -⟩
    · cases hk
    · rcases Planted.exists_parent hy with rfl | ⟨q, hq, hb, -⟩
      · have h₁ := ht.parent? hx
        rw [hi, hu.parent? (u.self_mem_sites []), ha] at h₁
        cases h₁
      · have h₁ := ht.parent? hx
        rw [hi, hu.parent? hy, ha, hb] at h₁
        refine ih ?_ hp hq (Option.some.inj h₁).symm
        rw [ha, List.length_cons] at hk
        exact Nat.succ.inj hk

/-- **Trees that share a node have the same top.** -/
theorem id_eq (ht : f.Stands t) (hu : f.Stands u) {n : NodeId} (h₁ : n ∈ t.ids) (h₂ : n ∈ u.ids) :
    t.id = u.id := by
  obtain ⟨x, hx, hxn⟩ := Planted.exists_site h₁ []
  obtain ⟨y, hy, hyn⟩ := Planted.exists_site h₂ []
  exact top_eq ht hu _ rfl hx hy (hxn.trans hyn.symm)

theorem eq_of_map_id_eq : ∀ {cs ds : List Planted}, cs.map Planted.id = ds.map Planted.id →
    (∀ c ∈ cs, ∀ d ∈ ds, c.id = d.id → c = d) → cs = ds
  | [], [], _, _ => rfl
  | [], _ :: _, h, _ => nomatch h
  | _ :: _, [], h, _ => nomatch h
  | c :: cs, d :: ds, h, he => by
    obtain ⟨hi, hs⟩ := List.cons.inj h
    rw [he c List.mem_cons_self d List.mem_cons_self hi, eq_of_map_id_eq hs fun c hc d hd =>
      he c (List.mem_cons_of_mem _ hc) d (List.mem_cons_of_mem _ hd)]

theorem here_eq (ht : f.Stands t) (hu : f.Stands u) (b : Planted) :
    ∀ {x y : Site}, x ∈ t.sites [] → y ∈ u.sites [] → x.id = y.id → x.here = b → y.here = b := by
  induction b with
  | node l cs ih =>
    intro x y hx hy hi hb
    have he := Option.some.inj
      ((ht.get? x hx).symm.trans ((congrArg f.get? hi).trans (hu.get? y hy)))
    obtain ⟨above, t'⟩ := x
    obtain ⟨below, k, ds⟩ := y
    subst hb
    rw [Site.entry, Site.entry, Entry.mk.injEq] at he
    obtain ⟨hc, hs, -, hch⟩ := he
    have hl : k = l := by
      obtain ⟨i, c, s⟩ := l
      obtain ⟨j, c', s'⟩ := k
      exact Label.mk.injEq _ _ _ _ _ _ ▸ ⟨hi.symm, hc.symm, hs.symm⟩
    have hcs : ds = cs := (eq_of_map_id_eq hch fun c hc d hd hcd => (ih c hc
      (Planted.child_mem_sites hx hc) (Planted.child_mem_sites hy hd) hcd rfl).symm).symm
    rw [hl, hcs]

/-- **A standing tree is known by its top.** -/
theorem eq_of_id_eq (ht : f.Stands t) (hu : f.Stands u) (h : t.id = u.id) : t = u :=
  (ht.here_eq hu t (t.self_mem_sites []) (u.self_mem_sites []) h rfl).symm

theorem treeUpTo_site (h : f.Stands t) :
    ∀ (limit : Nat) {x : Site}, x ∈ t.sites [] → x.here.height ≤ limit →
      f.treeUpTo limit x.id = some x.here.tree := by
  intro limit
  induction limit with
  | zero =>
    intro x _ hl
    obtain ⟨above, l, cs⟩ := x
    rw [Planted.height] at hl
    omega
  | succ limit ih =>
    intro x hx hl
    rw [treeUpTo, h.get? x hx, Option.map_some, Option.some.injEq]
    obtain ⟨above, l, cs⟩ := x
    rw [Planted.height] at hl
    have hc : (cs.map Planted.id).filterMap (f.treeUpTo limit) = cs.map Planted.tree := by
      rw [List.filterMap_map, ← List.filterMap_eq_map]
      refine List.filterMap_congr fun c hc => ?_
      exact ih (Planted.child_mem_sites hx hc)
        ((Planted.height_le_heightAll hc).trans (Nat.le_of_succ_le_succ hl))
    rw [Planted.tree, Planted.trees_eq, ← hc]
    rfl

/-- **The tree of a node is that of its site.** -/
theorem tree_site (h : f.Stands t) (hx : x ∈ t.sites []) : f.tree x.id = x.here.tree := by
  have hl := h.above_add_height_le hx
  rw [Forest.tree, tree?, h.treeUpTo_site f.size hx (by omega)]
  rfl

theorem tree_top (h : f.Stands t) : f.tree t.id = t.tree :=
  h.tree_site (t.self_mem_sites [])

theorem ancestorsUpTo_site (h : f.Stands t) :
    ∀ (limit : Nat) {x : Site}, x ∈ t.sites [] → x.above.length ≤ limit →
      f.ancestorsUpTo limit x.id = x.above.map Label.id := by
  intro limit
  induction limit with
  | zero =>
    intro x _ hl
    rw [List.length_eq_zero_iff.1 (Nat.le_zero.1 hl)]
    rfl
  | succ limit ih =>
    intro x hx hl
    rw [ancestorsUpTo, h.parent? hx]
    rcases Planted.exists_parent hx with rfl | ⟨p, hp, ha, -⟩
    · rfl
    · rw [ha, List.length_cons] at hl
      rw [ha, List.map_cons, ← ih hp (Nat.le_of_succ_le_succ hl)]
      rfl

/-- **The ancestors of a node are the labels above its site.** -/
theorem ancestors (h : f.Stands t) (hx : x ∈ t.sites []) :
    f.ancestors x.id = x.above.map Label.id := by
  have hl := h.above_add_height_le hx
  exact h.ancestorsUpTo_site f.size hx (by omega)

theorem descendantsUpTo_site (h : f.Stands t) (hc : t.Contained) :
    ∀ (limit : Nat) {x : Site}, x ∈ t.sites [] → x.here.height ≤ limit + 1 →
      f.descendantsUpTo limit x.id = Planted.idsAll x.here.children := by
  intro limit
  induction limit with
  | zero =>
    intro x _ hl
    obtain ⟨above, l, cs⟩ := x
    rw [Planted.height] at hl
    rw [Planted.eq_nil_of_heightAll (Nat.le_zero.1 (Nat.le_of_succ_le_succ hl))]
    rfl
  | succ limit ih =>
    intro x hx hl
    rw [descendantsUpTo, h.children hx, List.flatMap_map, Planted.idsAll_eq]
    refine List.flatMap_congr fun c hm => ?_
    have hs := Planted.child_mem_sites hx hm
    have hh : c.height ≤ limit + 1 := by
      have := Planted.height_le_heightAll hm
      obtain ⟨above, l, cs⟩ := x
      rw [Planted.height] at hl
      simp only [Planted.children_node] at this
      omega
    have hk : f.holds Content.isContainer c.id = c.content.isContainer := h.holds hs _
    rw [hk, Planted.ids_eq]
    by_cases hk : c.content.isContainer = true
    · rw [if_pos hk, ← ih hs hh]; rfl
    · rw [if_neg hk, hc _ hs (Bool.eq_false_iff.2 hk)]; rfl

/-- **The nodes below a tree's top are those of its inner sites, in their order.** -/
theorem descendants (h : f.Stands t) (hc : t.Contained) :
    f.descendants t.id = t.inner.map Site.id := by
  rw [Planted.inner, Planted.sitesAll_map_id]
  exact h.descendantsUpTo_site hc f.size (t.self_mem_sites [])
    (Nat.le_succ_of_le h.height_le_size)

theorem collect (h : f.Stands t) (hc : t.Contained) (test : Content → Bool) :
    f.collect test t.id = (t.inner.filter (test ·.here.content)).map Site.id := by
  rw [Forest.collect, h.descendants hc, List.filter_map]
  congr 1
  refine List.filter_congr fun x hx => ?_
  exact h.holds (Planted.mem_sites_of_mem_inner hx) test

end Stands
end Forest
end MediaGrouping
