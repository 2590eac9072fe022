/-
# Moving nodes before another

Nodes that are inserted before a child are taken out of wherever they are, one after the
other, and each time the child is looked up again, since taking a node out may have moved
it. What stands before the child when the next node is inserted are its former siblings
there, without the nodes that have been moved, and the nodes that have been moved
(`Linked.step_insertAllBefore`). So in the end the nodes stand right before the child, in
their order, and all else is as it was without them (`Linked.get?_insertAllBefore`).
-/

import MediaGrouping.Proofs.Forest.Relinking

namespace MediaGrouping

/-- The entry of a node once `cs` have become children of `p`, which has these children
then. -/
def Entry.moved (p : NodeId) (cs children : List NodeId) (n : NodeId) (e : Entry) : Entry :=
  { e with
    parent := if n ∈ cs then some p else e.parent
    children := if p = n then children else e.children.filter (· ∉ cs) }

theorem Entry.moved_moved (p : NodeId) (cs ds children children' : List NodeId) (n : NodeId)
    (e : Entry) :
    (e.moved p cs children n).moved p ds children' n = e.moved p (cs ++ ds) children' n := by
  have hparent : (if n ∈ ds then some p else if n ∈ cs then some p else e.parent) =
      if n ∈ cs ++ ds then some p else e.parent := by
    by_cases hc : n ∈ cs <;> by_cases hd : n ∈ ds <;> simp [hc, hd]
  simp only [moved, hparent]
  congr 1
  by_cases hp : p = n
  · rw [if_pos hp, if_pos hp]
  · rw [if_neg hp, if_neg hp, if_neg hp, filter_notMem_filter]

namespace Forest
namespace Linked

variable {f : Forest} {n p c : NodeId} {cs before after : List NodeId}

/-- **What moving one node does to an entry.** -/
theorem get?_insert_detach {left right : List NodeId} (h : f.Linked)
    (hp : (f.detach c).children p = left ++ right) (m : NodeId) :
    ((f.detach c).insert p left.length c).get? m =
      (f.get? m).map (Entry.moved p [c] (left ++ c :: right) m) := by
  obtain ⟨-, hfree⟩ := h.detach (r := fun _ _ => False) c
  have hget : (f.detach c).get? m = (f.get? m).map (Entry.without [c] m) := h.get?_detach c m
  rw [get?_insert hfree, hget, Option.map_map]
  cases he : f.get? m with
  | none => rfl
  | some e =>
    have hparent : (if c = m then some p else if m ∈ [c] then none else e.parent) =
        if m ∈ [c] then some p else e.parent := by
      by_cases hm : c = m <;> simp [hm, eq_comm (a := m)]
    rw [Option.map_some, Option.map_some, Option.some_inj, Function.comp_apply, Entry.moved,
      Entry.without]
    simp only [hparent]
    by_cases hpm : p = m
    · subst hpm
      have hleft : e.children.filter (· ∉ [c]) = left ++ right := by
        rw [← hp, h.children_detach, children_of_get? he]
      rw [if_pos rfl, if_pos rfl, hleft, List.take_left, List.drop_left]
    · rw [if_neg hpm, if_neg hpm]

/-- **What one step leaves**: a node is inserted right before a child, behind what is left
of the siblings there. -/
theorem step_insertAllBefore (h : f.Linked) (hp : f.children p = before ++ n :: after)
    (hc : c < f.size) (hnc : n ≠ c) (hw : ¬ f.Within p c) :
    ∃ index, (f.detach c).indexOf? p n = some index ∧
      Relinked f ((f.detach c).insert p index c) (fun m q => m = c ∧ q = p) ∧
      ∀ m, ((f.detach c).insert p index c).get? m = (f.get? m).map
        (Entry.moved p [c]
          (before.filter (· ∉ [c]) ++ c :: n :: after.filter (· ∉ [c])) m) := by
  have hn : n ∈ f.children p := hp ▸ List.mem_append_right _ List.mem_cons_self
  have hps : p < f.size := lt_size_of_mem_children hn
  have hleft : (f.detach c).children p =
      before.filter (· ∉ [c]) ++ n :: after.filter (· ∉ [c]) := by
    rw [h.children_detach, hp, List.filter_append, List.filter_cons_of_pos (by simpa using hnc)]
  have hbefore : n ∉ before.filter (· ∉ [c]) := fun hm => by
    have hnd := h.nodup p
    rw [hp, List.nodup_append'] at hnd
    exact hnd.2.2 (List.mem_of_mem_filter hm) List.mem_cons_self
  obtain ⟨hd, -⟩ := h.detach (r := fun m q => m = c ∧ q = p) c
  refine ⟨(before.filter (· ∉ [c])).length, ?_, ?_, h.get?_insert_detach hleft⟩
  · rw [indexOf?, hleft, idxOf?_before hbefore]
  · refine hd.trans (hd.linked.insert (hps.trans_le hd.size_le) (hc.trans_le hd.size_le)
      (fun hw' => hw (hd.within ?_ hw')) _)
    rintro _ _ ⟨rfl, rfl⟩
    exact hw

/-- **What inserting nodes before a child does to an entry**, wherever they are. -/
theorem get?_insertAllBefore (h : f.Linked) (hp : f.children p = before ++ n :: after)
    (hcs : ∀ c ∈ cs, c < f.size) (hnd : cs.Nodup) (hnc : n ∉ cs) (hw : ∀ c ∈ cs, ¬ f.Within p c)
    (m : NodeId) :
    (f.insertAllBefore p n cs).get? m = (f.get? m).map (Entry.moved p cs
      (before.filter (· ∉ cs) ++ cs ++ n :: after.filter (· ∉ cs)) m) := by
  induction cs generalizing f before after with
  | nil =>
    have hall : ∀ l : List NodeId, l.filter (· ∉ []) = l := fun l =>
      List.filter_eq_self.2 fun _ _ => by simp
    rw [Forest.insertAllBefore, hall, hall, List.append_nil, ← hp]
    cases he : f.get? m with
    | none => rfl
    | some e =>
      rw [Option.map_some, Entry.moved, if_neg List.not_mem_nil, hall]
      split_ifs with hpm
      · rw [hpm, children_of_get? he]
      · rfl
  | cons c cs ih =>
    rw [List.forall_mem_cons] at hcs hw
    rw [List.nodup_cons] at hnd
    rw [List.mem_cons, not_or] at hnc
    obtain ⟨index, hindex, hi, hget⟩ := h.step_insertAllBefore hp hcs.1 hnc.1 hw.1
    have hchildren : ((f.detach c).insert p index c).children p =
        (before.filter (· ∉ [c]) ++ [c]) ++ n :: after.filter (· ∉ [c]) := by
      obtain ⟨e, he, -⟩ := exists_entry_of_children hp (by simp)
      rw [List.append_assoc, List.singleton_append, children, hget, he, Option.map_some]
      exact if_pos rfl
    have hstill : ∀ d ∈ cs, ¬ ((f.detach c).insert p index c).Within p d := fun d hd hwd =>
      hw.2 d hd (hi.within (by rintro _ _ ⟨rfl, rfl⟩; exact hw.1) hwd)
    have hkept : [c].filter (· ∉ cs) = [c] := List.filter_cons_of_pos (by simpa using hnd.1)
    rw [Forest.insertAllBefore, hindex]
    show (Forest.insertAllBefore _ p n cs).get? m = _
    rw [ih hi.linked hchildren (fun d hd => (hcs.2 d hd).trans_le hi.size_le) hnd.2 hnc.2 hstill,
      hget, Option.map_map, List.filter_append, hkept, filter_notMem_filter, filter_notMem_filter,
      List.append_assoc _ [c], List.singleton_append]
    congr 1
    exact funext fun e => Entry.moved_moved p [c] cs _ _ m e

/-- **Inserting nodes before a child moves just these nodes.** They may be without a parent,
siblings of the child, children of other nodes or below one another. Then the parent has its
children without them, and them in their order right before the child; every other node has
its children without them; the parent is theirs, and no other link and no node changes. -/
theorem links_of_insertBefore (h : f.Linked) (hn : f.parent? n = some p)
    (hcs : ∀ c ∈ cs, c < f.size) (hnd : cs.Nodup) (hnc : n ∉ cs)
    (hw : ∀ c ∈ cs, ¬ f.Within p c) :
    let f' := f.insertBefore n cs
    (∃ before after, (f.children p).filter (· ∉ cs) = before ++ n :: after ∧
      f'.children p = before ++ cs ++ n :: after) ∧
    (∀ q, q ≠ p → f'.children q = (f.children q).filter (· ∉ cs)) ∧
    (∀ c ∈ cs, f'.parent? c = some p) ∧
    (∀ m, m ∉ cs → f'.parent? m = f.parent? m) ∧
    f'.size = f.size ∧ ∀ m, f'.content? m = f.content? m ∧ f'.source? m = f.source? m := by
  intro f'
  obtain ⟨before, after, hp⟩ := List.append_of_mem (h.parent_iff.1 hn)
  have heq : f' = f.insertAllBefore p n cs := by
    show f.insertBefore n cs = _
    rw [Forest.insertBefore, hn]
  obtain ⟨now, hnow, hget⟩ : ∃ now : List NodeId,
      now = before.filter (· ∉ cs) ++ cs ++ n :: after.filter (· ∉ cs) ∧
      ∀ m, f'.get? m = (f.get? m).map (Entry.moved p cs now m) :=
    ⟨_, rfl, fun m => heq ▸ h.get?_insertAllBefore hp hcs hnd hnc hw m⟩
  have hchildren : ∀ q, q < f.size ∨ p ≠ q →
      f'.children q = if p = q then now else (f.children q).filter (· ∉ cs) := fun q hq =>
    children_of_map (g := fun l => if p = q then now else l.filter (· ∉ cs)) (hget q)
      (fun _ => rfl) (hq.imp_right fun hne => if_neg hne)
  have hparent : ∀ m, f'.parent? m = if m ∈ cs then some p else f.parent? m := fun m =>
    parent?_of_map (g := fun o => if m ∈ cs then some p else o) (hget m) (fun _ => rfl)
      ((Decidable.em (m ∈ cs)).imp (hcs m) fun hm => if_neg hm)
  refine ⟨⟨before.filter (· ∉ cs), after.filter (· ∉ cs), ?_, ?_⟩, fun q hq => ?_, fun c hc => ?_,
    fun m hm => ?_, ?_, fun m => ⟨?_, ?_⟩⟩
  · rw [hp, List.filter_append, List.filter_cons_of_pos (by simpa using hnc)]
  · rw [hchildren p (.inl (h.lt_size_of_parent hn)), if_pos rfl, hnow]
  · rw [hchildren q (.inr hq.symm), if_neg hq.symm]
  · rw [hparent, if_pos hc]
  · rw [hparent, if_neg hm]
  · rw [heq, size_insertAllBefore]
  · rw [content?, hget, Option.map_map]
    rfl
  · rw [source?, hget, Option.bind_map]
    rfl

theorem links_of_insertBefore_nested :
    let rule (name : String) := Tree.node (.rule name.toList) none
    let t := Tree.node .root none
      [rule "a" [rule "b" [rule "c" []]], rule "d" [], rule "e" [], rule "f" [], rule "g" []]
    let f := (Forest.empty.plant t).2.detach 6
    let cs := [7, 3, 6, 4, 2]
    let f' := f.insertBefore 5 cs
    f.Linked ∧ f.parent? 5 = some 0 ∧ (∀ c ∈ cs, c < f.size) ∧ cs.Nodup ∧ 5 ∉ cs ∧
    (∀ c ∈ cs, ¬ f.Within 0 c) ∧
    (∃ before after, (f.children 0).filter (· ∉ cs) = before ++ 5 :: after ∧
      f'.children 0 = before ++ cs ++ 5 :: after) ∧
    (∀ q, q ≠ 0 → f'.children q = (f.children q).filter (· ∉ cs)) ∧
    (∀ c ∈ cs, f'.parent? c = some 0) ∧
    (∀ m, m ∉ cs → f'.parent? m = f.parent? m) ∧
    f'.size = f.size ∧ ∀ m, f'.content? m = f.content? m ∧ f'.source? m = f.source? m := by
  intro rule t f cs f'
  have h : f.Linked := ((linked_empty.plant _).1.linked.detach (r := fun _ _ => False) 6).1.linked
  have hn : f.parent? 5 = some 0 := by decide +kernel
  have hroot : f.parent? 0 = none := by decide +kernel
  have hcs : ∀ c ∈ cs, c < f.size := by decide +kernel
  have hw : ∀ c ∈ cs, ¬ f.Within 0 c := fun c hc hw => by
    rw [← eq_of_within hroot hw] at hc
    exact absurd hc (by decide)
  exact ⟨h, hn, hcs, by decide, by decide, hw,
    links_of_insertBefore h hn hcs (by decide) (by decide) hw⟩

end Linked
end Forest
end MediaGrouping
