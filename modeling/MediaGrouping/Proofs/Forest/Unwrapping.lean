/-
# Replacing nodes by their children

Unwrapping a node detaches its children, inserts them one by one before the
node, and detaches the node. In a standing tree this dissolves the node
(`Stands.unwrap`), so that unwrapping several nodes below the top, one after the
other, dissolves all of them (`Stands.unwrapAll`).
-/

import MediaGrouping.Proofs.Forest.Moves

namespace MediaGrouping
namespace Forest

variable {f : Forest} {t : Planted} {n p : NodeId}

theorem get?_foldl_setParent (cs : List NodeId) (f : Forest) (m : NodeId) :
    (cs.foldl (fun f c => f.setParent c none) f).get? m = (f.get? m).map fun e =>
      { e with parent := if m ∈ cs then none else e.parent } := by
  induction cs generalizing f with
  | nil => simp
  | cons c cs ih =>
    rw [List.foldl_cons, ih, setParent, get?_modify]
    by_cases hc : c = m
    · subst hc
      cases f.get? c <;> simp
    · rw [if_neg hc]
      simp only [List.mem_cons, Ne.symm hc, false_or]

theorem size_foldl_setParent (cs : List NodeId) (f : Forest) :
    (cs.foldl (fun f c => f.setParent c none) f).size = f.size := by
  induction cs generalizing f with
  | nil => rfl
  | cons c cs ih => rw [List.foldl_cons, ih, setParent, size_modify]

/-- **What taking out all children does to an entry.** -/
theorem get?_detachChildren (f : Forest) (n m : NodeId) :
    (f.detachChildren n).2.get? m = (f.get? m).map fun e =>
      { e with
        parent := if m ∈ f.children n then none else e.parent
        children := if n = m then [] else e.children } := by
  simp only [detachChildren, get?_foldl_setParent, setChildren, get?_modify]
  cases f.get? m with
  | none => split_ifs <;> rfl
  | some e => split_ifs <;> rfl

theorem size_detachChildren (f : Forest) (n : NodeId) : (f.detachChildren n).2.size = f.size := by
  simp only [detachChildren, size_foldl_setParent, setChildren, size_modify]

theorem idxOf?_before {before after : List NodeId} (h : n ∉ before) :
    (before ++ n :: after).idxOf? n = some before.length := by
  induction before with
  | nil => simp [List.idxOf?_cons]
  | cons b before ih =>
    rw [List.mem_cons, not_or] at h
    simp [List.idxOf?_cons, Ne.symm h.1, ih h.2]

/-- **What inserting a node without a parent does to an entry.** -/
theorem get?_insert {c : NodeId} (hc : f.parent? c = none) (index : Nat) (m : NodeId) :
    (f.insert p index c).get? m = (f.get? m).map fun e =>
      { e with
        parent := if c = m then some p else e.parent
        children := if p = m then e.children.take index ++ c :: e.children.drop index
          else e.children } := by
  rw [insert, detach_of_parent?_eq_none hc]
  simp only [setParent, get?_modify]
  cases f.get? m with
  | none => split_ifs <;> rfl
  | some e => split_ifs <;> rfl

theorem exists_entry_of_children {cs : List NodeId} (h : f.children p = cs) (hne : cs ≠ []) :
    ∃ e, f.get? p = some e ∧ e.children = cs := by
  cases he : f.get? p with
  | none => rw [children, he] at h; exact absurd h.symm hne
  | some e => exact ⟨e, rfl, by rw [← h, children_of_get? he]⟩

/-- **What inserting nodes without parents before a child does to an entry.** -/
theorem get?_insertAllBefore (cs : List NodeId) :
    ∀ {f : Forest} {before after : List NodeId}, f.children p = before ++ n :: after →
      n ∉ before → n ∉ cs → cs.Nodup → (∀ c ∈ cs, f.parent? c = none) → ∀ m,
      (f.insertAllBefore p n cs).get? m = (f.get? m).map fun e =>
        { e with
          parent := if m ∈ cs then some p else e.parent
          children := if p = m then before ++ cs ++ n :: after else e.children } := by
  induction cs with
  | nil =>
    intro f before after hp _ _ _ _ m
    cases he : f.get? m with
    | none => simp [insertAllBefore, he]
    | some e =>
      simp only [insertAllBefore, he, Option.map_some, List.append_nil, List.not_mem_nil, if_false]
      by_cases hm : p = m
      · subst hm; rw [if_pos rfl, ← hp, children_of_get? he]
      · rw [if_neg hm]
  | cons c cs ih =>
    intro f before after hp hb hn hnd hpar m
    rw [List.mem_cons, not_or] at hn
    rw [List.nodup_cons] at hnd
    have hc : f.parent? c = none := hpar c List.mem_cons_self
    obtain ⟨e, he, hech⟩ := exists_entry_of_children hp (by simp)
    have hget := get?_insert (p := p) hc before.length
    have hp' : (f.insert p before.length c).children p = (before ++ [c]) ++ n :: after := by
      rw [children, hget, he]
      simp [hech]
    have hpar' : ∀ d ∈ cs, (f.insert p before.length c).parent? d = none := by
      intro d hd
      have hcd : c ≠ d := fun h => hnd.1 (h ▸ hd)
      have hd' := hpar d (List.mem_cons_of_mem _ hd)
      rw [parent?] at hd' ⊢
      rw [hget]
      cases hg : f.get? d with
      | none => rfl
      | some e => rw [hg] at hd'; simpa [hcd] using hd'
    have hi : f.indexOf? p n = some before.length := by rw [indexOf?, hp, idxOf?_before hb]
    rw [insertAllBefore, detach_of_parent?_eq_none hc, hi]
    show (insertAllBefore _ p n cs).get? m = _
    rw [ih hp' (by simpa [hb] using hn.1) hn.2 hnd.2 hpar' m, hget, Option.map_map]
    congr 1
    funext e
    by_cases hm : m ∈ cs <;> by_cases hcm : c = m <;> by_cases hpm : p = m <;>
      simp [hm, hcm, hpm, eq_comm (a := m)]


theorem exists_entry_of_parent? (h : f.parent? n = some p) :
    ∃ e, f.get? n = some e ∧ e.parent = some p :=
  Option.bind_eq_some_iff.1 h

/-- **What unwrapping a node does to an entry.** -/
theorem get?_unwrap {before after cs : List NodeId} (hn : f.parent? n = some p)
    (hcs : f.children n = cs) (hp : f.children p = before ++ n :: after)
    (hnp : (before ++ n :: after).Nodup) (hnd : cs.Nodup) (hne : n ≠ p) (hnc : n ∉ cs)
    (hpc : p ∉ cs) (m : NodeId) :
    (f.unwrap n).get? m = (f.get? m).map fun e =>
      { e with
        parent := if n = m then none else if m ∈ cs then some p else e.parent
        children :=
          if n = m then [] else if p = m then before ++ cs ++ after else e.children } := by
  have hb : n ∉ before := fun h => (List.nodup_append'.1 hnp).2.2 h List.mem_cons_self
  obtain ⟨en, hen, henp⟩ := exists_entry_of_parent? hn
  obtain ⟨ep, hep, hepc⟩ := exists_entry_of_children hp (by simp)
  -- the children are taken out
  have hd := get?_detachChildren f n
  rw [hcs] at hd
  have hparent : (f.detachChildren n).2.parent? n = some p := by
    rw [parent?, hd, hen]; simp [hnc, henp]
  have hchildren : (f.detachChildren n).2.children p = before ++ n :: after := by
    rw [children, hd, hep]; simp [hepc, hne]
  have hfree : ∀ c ∈ cs, (f.detachChildren n).2.parent? c = none := by
    intro c hc
    rw [parent?, hd]
    cases f.get? c <;> simp [hc]
  -- they are inserted before the node
  have hi := get?_insertAllBefore cs hchildren hb hnc hnd hfree
  have hparent' : ((f.detachChildren n).2.insertAllBefore p n cs).parent? n = some p := by
    rw [parent?, hi, hd, hen]; simp [hnc, henp]
  have hchildren' : ((f.detachChildren n).2.insertAllBefore p n cs).children p
      = before ++ cs ++ n :: after := by
    rw [children, hi, hd, hep]; simp
  -- and the node is detached
  have herase : (before ++ cs ++ n :: after).erase n = before ++ cs ++ after := by
    rw [List.erase_append_right _ (by simp [hb, hnc]), List.erase_cons_head]
  have hfst : (f.detachChildren n).1 = cs := hcs
  rw [unwrap, hn]
  simp only [hfst, insertBefore, hparent]
  rw [get?_detach hparent' (by rw [hchildren']; simp), hi, hd, Option.map_map, Option.map_map]
  congr 1
  funext e
  simp only [Function.comp_apply]
  by_cases hpm : p = m
  · subst hpm
    simp only [if_neg hne, if_neg hpc, if_true, herase]
  · by_cases hnm : n = m
    · subst hnm
      simp only [if_neg hpm, if_neg hnc, if_true]
    · by_cases hm : m ∈ cs <;> simp only [if_neg hpm, if_neg hnm, hm, if_true, if_false]

theorem size_insertAllBefore (cs : List NodeId) (f : Forest) :
    (f.insertAllBefore p n cs).size = f.size := by
  induction cs generalizing f with
  | nil => rfl
  | cons c cs ih =>
    rw [insertAllBefore]
    split
    · exact size_detach f c
    · simp only [ih, insert, setParent, size_modify, size_detach]

theorem size_unwrap (f : Forest) (n : NodeId) : (f.unwrap n).size = f.size := by
  rw [unwrap]
  split
  · rfl
  · simp only [size_detach, insertBefore]
    split
    · exact size_detachChildren f n
    · rw [size_insertAllBefore, size_detachChildren]

namespace Stands

variable {x : Site}

/-- **Unwrapping a node below the top dissolves it.** -/
theorem unwrap (h : f.Stands t) (hx : x ∈ t.inner) :
    (f.unwrap x.id).Stands (t.dissolve (· == x.id)) ∧ Spares f (f.unwrap x.id) [t.id] := by
  obtain ⟨p, hp, ha, hc⟩ := Planted.exists_parent_of_inner hx
  have htop : (t.id == x.id) = false := beq_eq_false_iff_ne.2 (Planted.top_ne_inner h.nodup hx)
  have hx := Planted.mem_sites_of_mem_inner hx
  obtain ⟨before, after, hsplit⟩ := List.append_of_mem hc
  have hpx : p.id ∉ x.here.ids := Planted.parent_not_mem_ids h.nodup hp hx ha
  have hxn := h.nodup.sublist (Planted.ids_sublist hx)
  rw [Planted.ids_eq] at hpx hxn
  have hsub := Planted.map_id_sublist x.here.children
  have hchildren : f.children p.id = before.map Planted.id ++ x.id :: after.map Planted.id := by
    rw [h.children hp, hsplit, List.map_append, List.map_cons]; rfl
  have hpn := Planted.children_nodup h.nodup hp
  rw [← h.children hp, hchildren] at hpn
  have hget := get?_unwrap (by rw [h.parent? hx, ha]; rfl) (h.children hx) hchildren hpn
    (Planted.children_nodup h.nodup hx)
    (fun he => hpx (he ▸ List.mem_cons_self))
    (fun hm => (List.nodup_cons.1 hxn).1 (hsub.mem hm))
    (fun hm => hpx (List.mem_cons_of_mem _ (hsub.mem hm)))
  refine ⟨⟨fun z hz => ?_, h.nodup.sublist (Planted.ids_dissolve_sublist (· == x.id) htop)⟩, ?_⟩
  · rw [Planted.sites_dissolve (· == x.id) htop, List.mem_map] at hz
    obtain ⟨y, hy, rfl⟩ := hz
    obtain ⟨hy, hxy⟩ := List.mem_filter.1 hy
    have hxy : x.id ≠ y.id := fun he => by simp [he] at hxy
    have hpar := Planted.parent_dissolve h.nodup hp hx ha hy
    have hch := Planted.children_dissolve_one h.nodup hp hx ha hsplit hy
    rw [Site.id_dissolve, hget, h.get? y hy, Option.map_some, if_neg hxy, if_neg hxy, ← hpar, ← hch,
      Site.entry, Site.entry, Site.dissolve, Planted.label_dissolve, Planted.content_dissolve]
  · refine Spares.of_get? [t] (size_unwrap f x.id).ge (by simpa using h) fun m _ hm => ?_
    have hm := hm t List.mem_cons_self
    have hxm : x.id ≠ m := fun he => hm (he ▸ Planted.id_mem_ids hx)
    have hpm : p.id ≠ m := fun he => hm (he ▸ Planted.id_mem_ids hp)
    have hcm : m ∉ x.here.children.map Planted.id := fun hmem =>
      hm ((Planted.ids_sublist hx).mem
        (Planted.ids_eq x.here ▸ List.mem_cons_of_mem _ (hsub.mem hmem)))
    simp only [hget, if_neg hxm, if_neg hpm, if_neg hcm]
    cases f.get? m <;> rfl

/-- **Unwrapping nodes below the top, in any order, dissolves them.** -/
theorem unwrapAll (ns : List NodeId) :
    ∀ {f : Forest} {t : Planted}, f.Stands t → ns.Nodup → (∀ n ∈ ns, n ∈ t.inner.map Site.id) →
      (ns.foldl Forest.unwrap f).Stands (t.dissolve ns.contains) ∧
        Spares f (ns.foldl Forest.unwrap f) [t.id] := by
  induction ns with
  | nil =>
    intro f t h _ _
    obtain ⟨l, cs⟩ := t
    rw [Planted.dissolve, Planted.dissolveAll_of_kept [].contains fun _ _ => rfl]
    exact ⟨h, Spares.refl f _⟩
  | cons n ns ih =>
    intro f t h hnd hin
    obtain ⟨hn, hns⟩ := List.nodup_cons.1 hnd
    obtain ⟨x, hx, rfl⟩ := List.mem_map.1 (hin n List.mem_cons_self)
    obtain ⟨h₁, hs₁⟩ := h.unwrap hx
    have htop : (t.id == x.id) = false := beq_eq_false_iff_ne.2 (Planted.top_ne_inner h.nodup hx)
    obtain ⟨h₂, hs₂⟩ := ih h₁ hns fun m hm => by
      rw [Planted.inner_dissolve (· == x.id) htop, List.map_map]
      obtain ⟨y, hy, rfl⟩ := List.mem_map.1 (hin m (List.mem_cons_of_mem _ hm))
      refine List.mem_map.2 ⟨y, List.mem_filter.2 ⟨hy, ?_⟩, Site.id_dissolve _ y⟩
      rw [Bool.not_eq_true', beq_eq_false_iff_ne]
      exact fun he => hn (he ▸ hm)
    rw [Planted.id_dissolve] at hs₂
    have hc : (x.id :: ns).contains = fun m => m == x.id || ns.contains m :=
      funext fun _ => List.contains_cons
    rw [Planted.dissolve_dissolve, ← hc] at h₂
    exact ⟨h₂, hs₁.trans hs₂⟩

end Stands
end Forest
end MediaGrouping
