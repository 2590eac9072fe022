/-
# Putting merged blocks back

The merged blocks of an anchor go to the end of the root, or take the place of a
wrapper together with its children (`Planted.restored`). The anchors do not get
into each other's way: what holds while groups are put back is `Emitting`, each
group preserves it (`Emitting.step`), and so do all of them together
(`Emitting.run`). A group whose anchor is no longer on the sheet changes a tree
that is not looked at again.
-/

import MediaGrouping.Proofs.Grouping.Groups
import MediaGrouping.Proofs.Grouping.Pieces

namespace MediaGrouping

open Grouping (sorted emitGroup sortedBlocks)

namespace Planted

variable {o : Options} {table : Table} {done : List NodeId} {n : NodeId} {t c : Planted}
  {cs : List Planted}

/-- What a node right below the root becomes: an anchor that is done is replaced
by its children and its merged blocks. -/
def reopened (o : Options) (table : Table) (done : List NodeId) (c : Planted) : List Planted :=
  if c.id ∈ done then c.children ++ sorted o (table c.id) else [c]

/-- **A sheet with the merged blocks of some anchors put back.** -/
def restored (o : Options) (table : Table) (done : List NodeId) (t : Planted) : Planted :=
  .node t.label (t.children.flatMap (reopened o table done)
    ++ if t.id ∈ done then sorted o (table t.id) else [])

@[simp] theorem id_restored (o : Options) (table : Table) (done : List NodeId) (t : Planted) :
    (t.restored o table done).id = t.id := rfl

theorem restored_nil (o : Options) (table : Table) (t : Planted) : t.restored o table [] = t := by
  obtain ⟨l, cs⟩ := t
  have hcs : cs.flatMap (reopened o table []) = cs := by
    rw [List.flatMap_congr fun c _ => show reopened o table [] c = [c] from
      if_neg List.not_mem_nil]
    exact List.flatMap_singleton' cs
  rw [restored, children_node, hcs, if_neg List.not_mem_nil, List.append_nil]
  rfl

/-- An anchor among some nodes matters to no other of them. -/
theorem flatMap_reopened_cons (h : ∀ c ∈ cs, c.id ≠ n) :
    cs.flatMap (reopened o table (n :: done)) = cs.flatMap (reopened o table done) := by
  refine List.flatMap_congr fun c hc => ?_
  rw [reopened, reopened]
  simp only [List.mem_cons, h c hc, false_or]

/-- An anchor that is not on the sheet does not matter to it. -/
theorem restored_cons_of_off (ht : t.id ≠ n) (hc : ∀ c ∈ t.children, c.id ≠ n) :
    t.restored o table (n :: done) = t.restored o table done := by
  rw [restored, restored, flatMap_reopened_cons hc]
  simp only [List.mem_cons, ht, false_or]

/-- **The root's blocks** go to the end. -/
theorem restored_cons_top (hc : ∀ c ∈ t.children, c.id ≠ t.id) (hd : t.id ∉ done)
    (hr : t.content.withBlock = t.content) :
    t.restored o table (t.id :: done)
      = (t.restored o table done).extend (sorted o (table t.id)) := by
  rw [restored, restored, flatMap_reopened_cons hc, if_pos List.mem_cons_self, if_neg hd,
    List.append_nil]
  cases sorted o (table t.id) with
  | nil => rw [List.append_nil, extend_nil]
  | cons u us =>
    have hl : t.label.grow t.id = t.label := by
      rw [Label.grow, if_pos t.id_label, show t.label.content.withBlock = t.label.content from hr]
    rw [extend_cons, label_node, id_node, id_label, hl, children_node]

/-- A wrapper that is not done is still there. -/
theorem restored_of_split {before after : List Planted} (hs : t.children = before ++ c :: after)
    (hd : c.id ∉ done) :
    t.restored o table done = .node t.label (before.flatMap (reopened o table done)
      ++ c :: (after.flatMap (reopened o table done)
        ++ if t.id ∈ done then sorted o (table t.id) else [])) := by
  have hc : reopened o table done c = [c] := if_neg hd
  rw [restored, hs, List.flatMap_append, List.flatMap_cons, hc]
  simp only [List.append_assoc, List.cons_append, List.nil_append]

/-- **A wrapper's blocks** take its place, after its children. -/
theorem restored_cons_child {before after : List Planted}
    (hs : t.children = before ++ c :: after) (hn : t.ids.Nodup) :
    t.restored o table (c.id :: done) = .node t.label (before.flatMap (reopened o table done)
      ++ (c.children ++ sorted o (table c.id)) ++ (after.flatMap (reopened o table done)
        ++ if t.id ∈ done then sorted o (table t.id) else [])) := by
  obtain ⟨ht, hb, -, ha⟩ := id_not_mem_of_split hn hs
  have hne : ∀ {ts : List Planted}, c.id ∉ idsAll ts → ∀ d ∈ ts, d.id ≠ c.id := fun hm d hd he =>
    hm ((map_id_sublist _).mem (he ▸ List.mem_map_of_mem hd))
  have hc : reopened o table (c.id :: done) c = c.children ++ sorted o (table c.id) :=
    if_pos List.mem_cons_self
  rw [restored, hs, List.flatMap_append, List.flatMap_cons, hc, flatMap_reopened_cons (hne hb),
    flatMap_reopened_cons (hne ha)]
  simp only [List.mem_cons, ht, false_or, List.append_assoc]

end Planted

namespace Forest
namespace Stands

variable {f : Forest} {t w : Planted} {l : Label} {before after us : List Planted}

/-- **Trees that are appended to the top** extend it. -/
theorem appendAll_top (h : f.Stands t) (hu : ∀ u ∈ us, f.Stands u)
    (hn : (t.id :: us.map Planted.id).Nodup) :
    (f.appendAll t.id (us.map Planted.id)).Stands (t.extend us) ∧
      Spares f (f.appendAll t.id (us.map Planted.id)) (t.id :: us.map Planted.id) := by
  have hself := Planted.id_not_mem h.nodup
  have hus : ∀ u ∈ us, t.id ∉ u.ids := fun u hm =>
    h.disjoint (hu u hm) (fun he => (List.nodup_cons.1 hn).1 (he ▸ List.mem_map_of_mem hm))
      t.self_mem_ids
  have := h.appendAll us hu hn t.self_mem_ids
  rwa [Planted.foldl_graft_top us hself hus] at this

/-- **Trees that are appended to a child of the top** extend the child. -/
theorem appendAll_child (h : f.Stands (.node l (before ++ w :: after)))
    (hu : ∀ u ∈ us, f.Stands u) (hn : (l.id :: us.map Planted.id).Nodup) :
    (f.appendAll w.id (us.map Planted.id)).Stands (.node l (before ++ w.extend us :: after)) ∧
      Spares f (f.appendAll w.id (us.map Planted.id)) (l.id :: us.map Planted.id) := by
  obtain ⟨hl, hb, hw, ha⟩ := Planted.id_not_mem_of_split h.nodup rfl
  have hl : l.id ≠ w.id := hl
  have hmem : w.id ∈ (Planted.node l (before ++ w :: after)).ids :=
    Planted.id_mem_ids (Planted.child_mem_sites (Planted.self_mem_sites [] _) (by simp))
  have hus : ∀ u ∈ us, w.id ∉ u.ids := fun u hm => by
    refine h.disjoint (hu u hm) (fun he => ?_) hmem
    have he : l.id = u.id := he
    exact (List.nodup_cons.1 hn).1 (he ▸ List.mem_map_of_mem hm)
  have := h.appendAll us hu hn hmem
  rwa [Planted.foldl_graft_child us hl hb ha hw hus] at this

/-- **A child of the top that is unwrapped** is replaced by its children. -/
theorem unwrap_child (h : f.Stands (.node l (before ++ w :: after))) :
    (f.unwrap w.id).Stands (.node l (before ++ w.children ++ after)) ∧
      Spares f (f.unwrap w.id) [l.id] := by
  obtain ⟨-, hb, hw, ha⟩ := Planted.id_not_mem_of_split h.nodup rfl
  have hx : ⟨[l], w⟩ ∈ (Planted.node l (before ++ w :: after)).inner := Planted.mem_inner_iff.2
    ⟨Planted.child_mem_sites (Planted.self_mem_sites [] _) (by simp), List.cons_ne_nil _ _⟩
  have hkept : ∀ {ts : List Planted}, w.id ∉ Planted.idsAll ts →
      Planted.dissolveAll (· == w.id) ts = ts := fun hm =>
    Planted.dissolveAll_of_kept _ fun n hn =>
      beq_eq_false_iff_ne.2 fun he => hm (he ▸ hn)
  have := h.unwrap hx
  rwa [Site.id_mk, Planted.dissolve, Planted.dissolveAll_append,
    Planted.dissolveAll_cons_of_gone (by simp), hkept hb, hkept hw, hkept ha,
    ← List.append_assoc] at this

/-- A tree's top is not unwrapped. -/
theorem unwrap_top (h : f.Stands t) : f.unwrap t.id = f := by
  rw [Forest.unwrap, h.parent?_top]

end Stands
end Forest

/-- A tree from before the copies and the merged copies of an anchor have distinct tops. -/
theorem Forest.Holds.nodup_sorted {o : Options} {f : Forest} {first n top : NodeId} {table : Table}
    (h : f.Holds first table) (ht : top < first) :
    (top :: (sorted o (table n)).map Planted.id).Nodup := by
  have hperm := (Grouping.sorted_perm (o := o) (h.keys n)).map Planted.id
  rw [List.map_map] at hperm
  refine List.nodup_cons.2 ⟨fun hm => ?_, hperm.nodup_iff.2 (h.nodup n)⟩
  exact Nat.not_lt.2 (h.fresh n _ (hperm.mem_iff.1 hm)) ht

/-- **What holds while groups are put back** into a sheet `p` that stands without
its blocks in `f₁`: some anchors are done, and some groups are still to do. -/
structure Emitting (o : Options) (f₁ : Forest) (first : NodeId) (p : Planted) (table : Table)
    (done : List NodeId) (todo : List Group) (f : Forest) : Prop where
  stands : f.Stands (p.restored o table done)
  copies : ∀ g ∈ todo, ∀ u ∈ sorted o (table g.anchor), f.Stands u
  anchors : ∀ g ∈ todo, g.anchor = p.id ∨ (∃ c ∈ p.children, c.id = g.anchor) ∨
    ∃ d, f.Stands d ∧ d.id = g.anchor ∧ d.id < first ∧ p.id ≠ d.id ∧ ∀ c ∈ p.children, c.id ≠ d.id
  merged : ∀ g ∈ todo, g.merged = (table g.anchor).mapValues Planted.id
  kinds : ∀ g ∈ todo, g.kind = if g.anchor = p.id then .root else .wrapper
  distinct : (done ++ todo.map Group.anchor).Nodup
  others : ∀ u, f₁.Stands u → u.id < first → u.id ≠ p.id →
    u.id ∉ done ++ todo.map Group.anchor → f.Stands u

namespace Emitting

variable {o : Options} {f₁ f : Forest} {first : NodeId} {p : Planted} {table : Table}
  {done : List NodeId} {g : Group} {todo : List Group}

section

variable (h : Emitting o f₁ first p table done (g :: todo) f)

include h

/-- What putting a group back appends. -/
theorem sortedBlocks_eq :
    sortedBlocks o g = (sorted o (table g.anchor)).map Planted.id := by
  rw [← Grouping.sorted_mapValues, ← h.merged g List.mem_cons_self]
  rfl

/-- The anchor of a group that is to do is not done. -/
theorem anchor_not_mem : g.anchor ∉ done := fun hm =>
  (List.nodup_append'.1 h.distinct).2.2 hm List.mem_cons_self

/-- The group of the root, put back. -/
theorem stands_root (ha : g.anchor = p.id) (hn : p.ids.Nodup)
    (hr : p.content.withBlock = p.content)
    (hnodup : (p.id :: (sorted o (table g.anchor)).map Planted.id).Nodup) :
    (emitGroup o f g).Stands (p.restored o table (g.anchor :: done)) ∧
      Forest.Spares f (emitGroup o f g) (p.id :: (sorted o (table g.anchor)).map Planted.id) := by
  have hself : ∀ c ∈ p.children, c.id ≠ p.id := fun c hc he =>
    Planted.id_not_mem hn ((Planted.map_id_sublist _).mem (he ▸ List.mem_map_of_mem hc))
  have hkind := h.kinds g List.mem_cons_self
  have hd := h.anchor_not_mem
  have hcopies := h.copies g List.mem_cons_self
  rw [if_pos ha] at hkind
  rw [emitGroup, h.sortedBlocks_eq, hkind]
  rw [ha] at hd hcopies hnodup ⊢
  rw [Planted.restored_cons_top hself hd hr]
  exact h.stands.appendAll_top hcopies hnodup

/-- The group of a wrapper on the sheet, put back. -/
theorem stands_child {c : Planted} (hc : c ∈ p.children) (ha : c.id = g.anchor)
    (hn : p.ids.Nodup) (hnodup : (p.id :: (sorted o (table g.anchor)).map Planted.id).Nodup) :
    (emitGroup o f g).Stands (p.restored o table (g.anchor :: done)) ∧
      Forest.Spares f (emitGroup o f g) (p.id :: (sorted o (table g.anchor)).map Planted.id) := by
  obtain ⟨before, after, hs⟩ := List.append_of_mem hc
  obtain ⟨hne, -⟩ := Planted.id_not_mem_of_split hn hs
  have hkind := h.kinds g List.mem_cons_self
  have hd := h.anchor_not_mem
  have hst := h.stands
  have hcopies := h.copies g List.mem_cons_self
  rw [if_neg fun he => hne (he.symm.trans ha.symm)] at hkind
  rw [emitGroup, h.sortedBlocks_eq, hkind]
  rw [← ha] at hd hcopies hnodup ⊢
  rw [Planted.restored_of_split hs hd] at hst
  obtain ⟨h₁, hs₁⟩ := hst.appendAll_child hcopies hnodup
  obtain ⟨h₂, hs₂⟩ := h₁.unwrap_child
  rw [Planted.id_extend] at h₂ hs₂
  rw [Planted.children_extend] at h₂
  rw [Planted.restored_cons_child hs hn]
  exact ⟨h₂, hs₁.trans (hs₂.mono (by simp))⟩

/-- The group of a tree of its own, put back. -/
theorem stands_off {d : Planted} (hd : f.Stands d) (ha : d.id = g.anchor) (hpd : p.id ≠ d.id)
    (hcd : ∀ c ∈ p.children, c.id ≠ d.id)
    (hnodup : ∀ top ∈ [p.id, d.id], (top :: (sorted o (table g.anchor)).map Planted.id).Nodup) :
    (emitGroup o f g).Stands (p.restored o table (g.anchor :: done)) ∧
      Forest.Spares f (emitGroup o f g) (d.id :: (sorted o (table g.anchor)).map Planted.id) := by
  have hkind := h.kinds g List.mem_cons_self
  rw [if_neg fun he => hpd (he.symm.trans ha.symm)] at hkind
  rw [emitGroup, h.sortedBlocks_eq, hkind, ← ha, Planted.restored_cons_of_off hpd hcd, ha]
  obtain ⟨h₁, hs₁⟩ := hd.appendAll_top (h.copies g List.mem_cons_self) (hnodup d.id (by simp))
  have htop := h₁.unwrap_top
  rw [Planted.id_extend, ha] at htop
  rw [ha] at hs₁
  rw [htop]
  refine ⟨hs₁.stands _ h.stands fun hm => ?_, hs₁⟩
  rw [Planted.id_restored] at hm
  exact (List.mem_cons.1 hm).elim (fun he => hpd (he.trans ha.symm)) fun hm =>
    (List.nodup_cons.1 (hnodup p.id (by simp))).1 hm

/-- **One group put back** changes the tree of its anchor, and the copies. -/
theorem stands_step (hh : f₁.Holds first table) (hp : p.id < first) (hn : p.ids.Nodup)
    (hr : p.content.withBlock = p.content) :
    (emitGroup o f g).Stands (p.restored o table (g.anchor :: done)) ∧
      ∃ top, (top = p.id ∨ top = g.anchor) ∧ top < first ∧
        Forest.Spares f (emitGroup o f g) (top :: (sorted o (table g.anchor)).map Planted.id) := by
  rcases h.anchors g List.mem_cons_self with ha | ⟨c, hc, ha⟩ | ⟨d, hd, ha, hlt, hpd, hcd⟩
  · obtain ⟨hstands, hs⟩ := h.stands_root ha hn hr (hh.nodup_sorted hp)
    exact ⟨hstands, p.id, Or.inl rfl, hp, hs⟩
  · obtain ⟨hstands, hs⟩ := h.stands_child hc ha hn (hh.nodup_sorted hp)
    exact ⟨hstands, p.id, Or.inl rfl, hp, hs⟩
  · have hnodup : ∀ top ∈ [p.id, d.id],
        (top :: (sorted o (table g.anchor)).map Planted.id).Nodup := fun top htop =>
      hh.nodup_sorted (by
        rcases List.mem_pair.1 htop with rfl | rfl
        · exact hp
        · exact hlt)
    obtain ⟨hstands, hs⟩ := h.stands_off hd ha hpd hcd hnodup
    exact ⟨hstands, d.id, Or.inr ha, hlt, hs⟩

/-- **One group put back** leaves the others to do. -/
theorem step (hh : f₁.Holds first table) (hp : p.id < first) (hn : p.ids.Nodup)
    (hr : p.content.withBlock = p.content) :
    Emitting o f₁ first p table (g.anchor :: done) todo (emitGroup o f g) := by
  obtain ⟨hstands, top, htop, hlt, hs⟩ := h.stands_step hh hp hn hr
  have hperm : (done ++ g.anchor :: todo.map Group.anchor).Perm
      (g.anchor :: done ++ todo.map Group.anchor) := List.perm_middle
  have hdistinct := hperm.nodup_iff.1 h.distinct
  have hne : ∀ k ∈ todo, k.anchor ≠ g.anchor := fun k hk he =>
    (List.nodup_cons.1 hdistinct).1 (List.mem_append_right _ (he ▸ List.mem_map_of_mem hk))
  have hcopy : ∀ {k u}, u ∈ sorted o (table k) → u.id ∈ (table k).tops := fun hu => by
    obtain ⟨key, hm⟩ := Grouping.exists_key_of_sorted hu
    exact List.mem_map_of_mem (f := fun e : Text × Planted => e.2.id) hm
  have hfresh : ∀ {n}, n < first → n ∉ (sorted o (table g.anchor)).map Planted.id := fun hn hm => by
    obtain ⟨u, hu, rfl⟩ := List.mem_map.1 hm
    exact Nat.not_lt.2 (hh.fresh _ _ (hcopy hu)) hn
  refine ⟨hstands, fun k hk u hu => ?_, fun k hk => ?_,
    fun k hk => h.merged k (List.mem_cons_of_mem _ hk),
    fun k hk => h.kinds k (List.mem_cons_of_mem _ hk), hdistinct, fun u hu hul hup hud => ?_⟩
  · refine hs.stands u (h.copies k (List.mem_cons_of_mem _ hk) u hu) fun hm => ?_
    rcases List.mem_cons.1 hm with hm | hm
    · exact Nat.not_lt.2 (hh.fresh _ _ (hcopy hu)) (hm ▸ hlt)
    · obtain ⟨v, hv, he⟩ := List.mem_map.1 hm
      exact hh.apart _ _ (hne k hk) (hcopy hu) (he ▸ hcopy hv)
  · refine (h.anchors k (List.mem_cons_of_mem _ hk)).imp_right fun ha => ha.imp_right ?_
    rintro ⟨d, hd, hda, hdl, hpd, hcd⟩
    refine ⟨d, hs.stands d hd fun hm => ?_, hda, hdl, hpd, hcd⟩
    rcases List.mem_cons.1 hm with hm | hm
    · rcases htop with rfl | rfl
      · exact hpd hm.symm
      · exact hne k hk (hda.symm.trans hm)
    · exact hfresh hdl hm
  · have hud' := fun hm => hud (hperm.mem_iff.1 hm)
    refine hs.stands u (h.others u hu hul hup hud') fun hm => ?_
    rcases List.mem_cons.1 hm with hm | hm
    · rcases htop with rfl | rfl
      · exact hup hm
      · exact hud (hm ▸ List.mem_cons_self)
    · exact hfresh hul hm

end

/-- **All groups put back.** -/
theorem run (hh : f₁.Holds first table) (hp : p.id < first) (hn : p.ids.Nodup)
    (hr : p.content.withBlock = p.content) :
    ∀ {todo : List Group} {done : List NodeId} {f : Forest},
      Emitting o f₁ first p table done todo f →
      ∃ all, (∀ n, n ∈ all ↔ n ∈ done ∨ n ∈ todo.map Group.anchor) ∧
        Emitting o f₁ first p table all [] (Grouping.emit o f todo) := by
  intro todo
  induction todo with
  | nil =>
    intro done f h
    exact ⟨done, fun n => by simp, h⟩
  | cons g todo ih =>
    intro done f h
    obtain ⟨all, hall, hrun⟩ := ih (h.step hh hp hn hr)
    refine ⟨all, fun n => (hall n).trans ?_, hrun⟩
    rw [List.map_cons, List.mem_cons, List.mem_cons, or_assoc, or_left_comm]

end Emitting
end MediaGrouping
