/-
# Operations on linked forests

Every operation on a linked forest is made of taking nodes out, hanging them under
nodes that are not below them, and planting trees, and so leaves the forest linked.
What is said of each is which parents nodes may have got by it: unwrapping hangs the
children of a node under its parent (`Linked.unwrap`), enclosing hangs nodes only under
a new node and the block (`Linked.resolve`), and merging hangs only new nodes under
others (`Linked.aggregate`).
-/

import MediaGrouping.Grouping.Aggregate
import MediaGrouping.Proofs.Forest.Links
import MediaGrouping.Proofs.Registry

namespace MediaGrouping
namespace Forest
namespace Linked

variable {f f' : Forest} {n m p q c : NodeId} {cs : List NodeId} {r : NodeId → NodeId → Prop}

theorem lt_size_of_mem (h : f.Linked) (hc : c ∈ f.children p) : c < f.size :=
  lt_size_of_parent? (h.parent_iff.2 hc)

/-- What a node is within is in the forest if the node is. -/
theorem lt_size_of_within (h : f.Linked) (hn : n < f.size) (hw : f.Within n m) : m < f.size := by
  induction hw with
  | refl => exact hn
  | tail _ hl _ => exact h.lt_size_of_parent hl

/-- Taking out the child at a place is taking out that child. -/
theorem removeAt?_eq {index : Nat} (h : f.Linked) (hr : f.removeAt? p index = some (c, f')) :
    f' = f.detach c := by
  obtain ⟨d, hd, he⟩ := Option.map_eq_some_iff.1 hr
  obtain ⟨rfl, rfl⟩ := Prod.mk.inj he
  obtain ⟨hlt, hget⟩ := List.getElem?_eq_some_iff.1 hd
  have hmem : d ∈ f.children p := List.mem_of_getElem? hd
  have herase : (f.children p).erase d = (f.children p).eraseIdx index := by
    rw [← hget, (h.nodup p).erase_getElem]
  rw [Forest.detach, h.parent_iff.2 hmem]
  simp only [if_pos hmem, herase]

/-! ### Several nodes -/

/-- **Nodes are appended to one that is not within them.** -/
theorem appendAll (hp : p < f.size) (h : f.Linked) (hcs : ∀ c ∈ cs, c < f.size)
    (hw : ∀ c ∈ cs, ¬ f.Within p c) :
    Relinked f (f.appendAll p cs) fun n q => n ∈ cs ∧ q = p := by
  induction cs generalizing f with
  | nil => exact h.refl
  | cons c cs ih =>
    rw [List.forall_mem_cons] at hcs hw
    have hc := h.append hp hcs.1 hw.1
    have hstill : ∀ d ∈ cs, ¬ (f.append p c).Within p d := fun d hd hwd =>
      hw.2 d hd (hc.within (by rintro _ _ ⟨rfl, rfl⟩; exact hw.1) hwd)
    have hrest := ih (hp.trans_le hc.size_le) hc.linked
      (fun d hd => (hcs.2 d hd).trans_le hc.size_le) hstill
    exact (hc.mono fun hnew => ⟨hnew.1 ▸ List.mem_cons_self, hnew.2⟩).trans
      (hrest.mono fun hnew => ⟨List.mem_cons_of_mem _ hnew.1, hnew.2⟩)

/-- **Nodes are inserted before a child**, until it is moved away itself. -/
theorem insertAllBefore (hp : p < f.size) (h : f.Linked) (hcs : ∀ c ∈ cs, c < f.size)
    (hw : ∀ c ∈ cs, ¬ f.Within p c) (n : NodeId) :
    Relinked f (f.insertAllBefore p n cs) fun m q => m ∈ cs ∧ q = p := by
  induction cs generalizing f with
  | nil => exact h.refl
  | cons c cs ih =>
    rw [List.forall_mem_cons] at hcs hw
    have hd : Relinked f (f.detach c) fun m q => m ∈ c :: cs ∧ q = p := (h.detach c).1
    have hkept : ∀ d, ¬ f.Within p d → ¬ (f.detach c).Within p d := fun d hd' hwd =>
      hd' (((h.detach c).1 : Relinked f (f.detach c) fun _ _ => False).within
        (fun _ _ hno => hno.elim) hwd)
    rw [Forest.insertAllBefore]
    split
    · exact hd
    · next index _ =>
      have hi := hd.linked.insert (hp.trans_le hd.size_le) (hcs.1.trans_le hd.size_le)
        (hkept c hw.1) index
      have hstill : ∀ d ∈ cs, ¬ ((f.detach c).insert p index c).Within p d := fun d hd' hwd =>
        hkept d (hw.2 d hd')
          (hi.within (by rintro _ _ ⟨rfl, rfl⟩; exact hkept _ hw.1) hwd)
      have hsize := hd.size_le.trans hi.size_le
      have hrest := ih (hp.trans_le hsize) hi.linked
        (fun d hd' => (hcs.2 d hd').trans_le hsize) hstill
      exact hd.trans ((hi.mono fun hnew => ⟨hnew.1 ▸ List.mem_cons_self, hnew.2⟩).trans
        (hrest.mono fun hnew => ⟨List.mem_cons_of_mem _ hnew.1, hnew.2⟩))

/-- **Nodes are inserted before a node** into its parent, if that is not within them. -/
theorem insertBefore (h : f.Linked) (hcs : ∀ c ∈ cs, c < f.size)
    (hw : ∀ p, f.parent? n = some p → ∀ c ∈ cs, ¬ f.Within p c) :
    Relinked f (f.insertBefore n cs) fun m q => m ∈ cs ∧ f.parent? n = some q := by
  rw [Forest.insertBefore]
  split
  · exact h.refl
  · next p hp =>
    exact (insertAllBefore (h.lt_size_of_parent hp) h hcs (hw p hp) n).mono
      fun hnew => ⟨hnew.1, hnew.2 ▸ hp⟩

/-- **Unwrapping hangs the children of a node under its parent.** -/
theorem unwrap (h : f.Linked) (n : NodeId) :
    Relinked f (f.unwrap n) fun c q => f.parent? c = some n ∧ f.parent? n = some q := by
  rw [Forest.unwrap]
  split
  · exact h.refl
  · next p hp =>
    have hd : Relinked f (f.detachChildren n).2 fun _ _ => False := (h.detachChildren n).1
    have hparent : ∀ {q}, (f.detachChildren n).2.parent? n = some q → f.parent? n = some q :=
      fun hq => (hd.parent hq).resolve_right id
    have hchildren : ∀ c ∈ f.children n, c < (f.detachChildren n).2.size :=
      fun c hc => (h.lt_size_of_mem hc).trans_le hd.size_le
    have hb := hd.linked.insertBefore (n := n) hchildren fun q hq c hc hw =>
      h.not_within_of_child hc (.head (hparent hq) (hd.within (fun _ _ hno => hno.elim) hw))
    refine (hd.mono False.elim).trans ((hb.mono fun hnew => ?_).trans (hb.linked.detach n).1)
    exact ⟨h.parent_iff.2 hnew.1, hparent hnew.2⟩

/-! ### Enclosing -/

/-- **A new node has no links.** -/
theorem create (h : f.Linked) (content : Content) :
    Relinked f (f.create content).2 r ∧ (f.create content).2.parent? f.size = none ∧
      f.size < (f.create content).2.size := by
  rw [create_eq_plant]
  obtain ⟨hp, hfree, hlt⟩ := h.plant (.node content none [])
  refine ⟨⟨hp.linked, hp.size_le, fun {n q} hq => (hp.parent hq).imp_right fun hnew => ?_⟩, hfree,
    hlt⟩
  -- the new node is the only one, and has no parent
  have hn := lt_size_of_parent? hq
  rw [size_plant] at hn
  obtain rfl : n = f.size := Nat.le_antisymm (Nat.le_of_lt_succ hn) hnew.1
  rw [show (f.plant _).2.parent? f.size = none from hfree] at hq
  cases hq

/-- **Enclosing hangs nodes under a new node, and that one under the block.** -/
theorem enclose {block : NodeId} (h : f.Linked) (hb : block < f.size) (rule : AtRule) :
    Relinked f (Resolver.enclose f block rule) fun _ q => f.size ≤ q ∨ q = block := by
  obtain ⟨hc, hfree, hlt⟩ := h.create (r := fun _ _ => False)
    (.atRule { rule with hasBlock := true })
  set f₁ := (f.create (.atRule { rule with hasBlock := true })).2 with hf₁
  have hd : Relinked f₁ (f₁.detachChildren block).2 fun _ _ => False :=
    (hc.linked.detachChildren block).1
  set f₂ := (f₁.detachChildren block).2 with hf₂
  have hno : ∀ {f f' : Forest} {n m}, Relinked f f' (fun _ _ => False) → f'.Within n m →
      f.Within n m := fun hr hw => hr.within (fun _ _ hno => hno.elim) hw
  -- the children do not have the new node below them, since that has no parent
  have happended : Relinked f₂ (f₂.appendAll f.size (f₁.children block))
      fun n q => n ∈ f₁.children block ∧ q = f.size := by
    refine appendAll (hlt.trans_le hd.size_le) hd.linked
      (fun c hcm => (hc.linked.lt_size_of_mem hcm).trans_le hd.size_le) fun c hcm hw => ?_
    obtain rfl := eq_of_within hfree (hno hd hw)
    rw [hc.linked.parent_iff.2 hcm] at hfree
    cases hfree
  set f₃ := f₂.appendAll f.size (f₁.children block) with hf₃
  have hsize := (hc.size_le.trans hd.size_le).trans happended.size_le
  -- the block is not below the new node, since nothing has been
  have hlast := happended.linked.append (hb.trans_le hsize)
    ((hlt.trans_le hd.size_le).trans_le happended.size_le) fun hw => by
      refine absurd (h.lt_size_of_within hb (hno hc (hno hd (happended.within ?_ hw))))
        (lt_irrefl _)
      exact fun x y hxy hwx => hc.linked.not_within_of_child hxy.1 (hno hd hwx)
  have hresult : Resolver.enclose f block rule = f₃.append block f.size := rfl
  rw [hresult]
  refine (hc.mono False.elim).trans ((hd.mono False.elim).trans ((happended.mono ?_).trans
    (hlast.mono ?_)))
  · exact fun hnew => .inl hnew.2.ge
  · exact fun hnew => .inr hnew.2

/-- **Resolving hangs nodes only under a new node, or under the block.** -/
theorem resolve {o : Options} {name : Text} {k k' : Resolver} {block : NodeId} {x : Resolution}
    (h : f.Linked) (hb : block < f.size)
    (hr : k.resolve o name f block = .ok (x, k', f')) :
    Relinked f f' fun _ q => f.size ≤ q ∨ q = block := by
  rw [Resolver.resolve] at hr
  split at hr
  · cases hr
    exact h.refl
  · cases hr
  · next place _ =>
    obtain rfl : Resolver.prepare f block place = f' := by
      cases hr
      rfl
    rw [Resolver.prepare]
    split
    · next rule _ => exact h.enclose hb rule
    · exact h.refl

/-! ### Merging -/

/-- **A copy is linked in itself**, and then hung under the target. -/
theorem appendCopy {target : NodeId} (h : f.Linked) (ht : target < f.size) (n : NodeId) :
    Relinked f ((f.copy n).2.append target (f.copy n).1) fun n _ => f.size ≤ n := by
  obtain ⟨hc, -, hlt⟩ := h.plant (f.tree n)
  have hw : ¬ (f.plant (f.tree n)).2.Within target f.size := fun hw => by
    have hold : f.Within target f.size := hc.within
      (fun x _ hnew hwx => absurd (h.lt_size_of_within ht hwx) hnew.1.not_gt) hw
    exact absurd (h.lt_size_of_within ht hold) (lt_irrefl _)
  have ha := hc.linked.append (ht.trans_le hc.size_le) hlt hw
  exact (hc.mono And.left).trans (ha.mono fun hnew => hnew.1.ge)

theorem appendCopies {target : NodeId} (ns : List NodeId) (h : f.Linked) (ht : target < f.size) :
    Relinked f (Group.appendCopies f target ns) fun n _ => f.size ≤ n := by
  induction ns generalizing f with
  | nil => exact h.refl
  | cons n ns ih =>
    have hfirst := h.appendCopy ht n
    have hrest := ih hfirst.linked (ht.trans_le hfirst.size_le)
    rw [Group.appendCopies]
    exact hfirst.trans (hrest.mono fun hn => hfirst.size_le.trans hn)

/-- **Taking a block in hangs only new nodes under others.** -/
theorem absorb {g : Group} (h : f.Linked) (hg : ∀ e ∈ g.merged, e.2 < f.size) (block : NodeId) :
    Relinked f (g.absorb f block).2 fun n _ => f.size ≤ n := by
  rw [Group.absorb]
  split
  · next target htarget =>
    have ht := hg _ (Registry.mem_of_find? htarget)
    have hc := h.appendCopies (f.children block) ht
    exact hc.trans (hc.linked.detach block).1
  · obtain ⟨hc, -⟩ := h.plant (f.tree block)
    exact (hc.mono And.left).trans (hc.linked.detach block).1

end Linked
end Forest

namespace Group

variable {f : Forest} {g : Group} {block : NodeId} {e : Text × NodeId}

theorem anchor_absorb (g : Group) (f : Forest) (block : NodeId) :
    (g.absorb f block).1.anchor = g.anchor := by
  rw [absorb]
  split <;> rfl

/-- **A merged block is an old one or the new copy.** -/
theorem mem_merged_absorb (he : e ∈ (g.absorb f block).1.merged) :
    e ∈ g.merged ∨ e.2 = f.size ∧ f.size < (g.absorb f block).2.size := by
  cases hfind : Registry.find? g.merged (queryOf f block) with
  | some target =>
    simp only [absorb, hfind] at he
    exact .inl he
  | none =>
    simp only [absorb, hfind] at he ⊢
    rw [List.mem_append, List.mem_singleton] at he
    refine he.imp_right fun hnew => ⟨by rw [hnew]; rfl, ?_⟩
    have hlt := (Forest.stands_plant f (f.tree block)).lt_size
      (Planted.id_mem_ids (Planted.self_mem_sites [] _))
    rw [Forest.size_detach]
    rwa [Site.id, Tree.id_planted] at hlt

end Group

namespace Aggregator

variable {a : Aggregator} {f : Forest} {g k : Group} {id : GroupId} {anchor block : NodeId}
  {kind : GroupKind} {gs : List Group} {e : Text × NodeId}

theorem mem_of_mem_place (h : k ∈ place g gs) : k = g ∨ k ∈ gs := by
  induction gs with
  | nil => exact .inl (List.mem_singleton.1 h)
  | cons x gs ih =>
    rw [place] at h
    split_ifs at h
    · exact List.mem_cons.1 h
    · exact (List.mem_cons.1 h).imp_right (List.mem_cons_of_mem _)
    · rcases List.mem_cons.1 h with rfl | h
      · exact .inr List.mem_cons_self
      · exact (ih h).imp_right (List.mem_cons_of_mem _)

/-- The group that a block is merged into is known, or new and empty. -/
theorem getD_group? (a : Aggregator) (id : GroupId) (anchor : NodeId) (kind : GroupKind) :
    (a.group? id).getD ⟨id, anchor, kind, []⟩ ∈ a.groups ∨
    (a.group? id).getD ⟨id, anchor, kind, []⟩ = ⟨id, anchor, kind, []⟩ := by
  cases h : a.group? id with
  | some g => exact .inl (List.mem_of_find?_eq_some h)
  | none => exact .inr rfl

/-- **Merging a block hangs only new nodes under others.** -/
theorem relinked_aggregate (h : f.Linked)
    (ha : ∀ g ∈ a.groups, ∀ e ∈ g.merged, e.2 < f.size) :
    Forest.Relinked f (a.aggregate f id anchor kind block).2 fun n _ => f.size ≤ n := by
  refine h.absorb (fun e he => ?_) block
  rcases getD_group? a id anchor kind with hg | hg
  · exact ha _ hg e he
  · rw [hg] at he
    cases he

/-- **What an aggregator keeps of a block**: the anchors are those before and the one
given, the merged blocks are those before and a new node. -/
theorem mem_groups_aggregate (hg : g ∈ (a.aggregate f id anchor kind block).1.groups) :
    ((∃ k ∈ a.groups, g.anchor = k.anchor) ∨ g.anchor = anchor) ∧
      ∀ e ∈ g.merged, (∃ k ∈ a.groups, e ∈ k.merged) ∨
        e.2 = f.size ∧ f.size < (a.aggregate f id anchor kind block).2.size := by
  have hplace : g ∈ place (((a.group? id).getD ⟨id, anchor, kind, []⟩).absorb f block).1 a.groups :=
    hg
  rcases mem_of_mem_place hplace with hnew | hg
  · rw [hnew, Group.anchor_absorb]
    rcases getD_group? a id anchor kind with hk | hk
    · exact ⟨.inl ⟨_, hk, rfl⟩, fun e he =>
        (Group.mem_merged_absorb he).imp_left fun hold => ⟨_, hk, hold⟩⟩
    · refine ⟨.inr (by rw [hk]), fun e he => (Group.mem_merged_absorb he).imp_left fun hold => ?_⟩
      rw [hk] at hold
      cases hold
  · exact ⟨.inl ⟨g, hg, rfl⟩, fun e he => .inl ⟨g, hg, he⟩⟩

end Aggregator
end MediaGrouping
