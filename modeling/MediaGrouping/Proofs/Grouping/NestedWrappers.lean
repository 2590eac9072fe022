/-
# Nested wrappers

A run fails exactly if some block stands below two wrappers, one right inside the
other, with at most a foreign at-rule in between. It then reports the outer wrapper
of the first such block in pre-order, and leaves the sheet as it was, but for the
annotation and the blocks that were taken before (`Grouping.transform_nested`).
-/

import MediaGrouping.Proofs.Grouping.Running
import MediaGrouping.Proofs.Options.Predicates

namespace MediaGrouping

theorem Options.Blind.mild {o : Options} (h : o.Blind) (hm : o.SparesMedia) (t : Planted) :
    Mild o t where
  media := fun _ _ hx => hm.wraps hx
  blind := h.wraps_withBlock

namespace Scope

variable {o : Options} {name : Text} {above : List Label} {w : Label}

/-- **A nested wrapper among ancestors**, nearest first: at most one at-rule that is
neither a wrapper nor of the name, and then two wrappers, of which it is the second. -/
def Nested (o : Options) (name : Text) (above : List Label) (w : Label) : Prop :=
  ∃ path a rest, above = path ++ a :: w :: rest ∧
    (path = [] ∨ ∃ l, path = [l] ∧ foreign o name l.content = true) ∧
    o.wraps a.content = true ∧ o.wraps w.content = true

theorem offenceOf_eq_some : offenceOf o above = some w ↔
    ∃ a rest, above = a :: w :: rest ∧ o.wraps a.content = true ∧
      o.wraps w.content = true := by
  match above with
  | [] => simp [offenceOf]
  | [a] => simp [offenceOf]
  | a :: b :: rest =>
    rw [offenceOf, Option.ite_none_right_eq_some, Bool.and_eq_true, Option.some.injEq]
    constructor
    · rintro ⟨⟨ha, hb⟩, rfl⟩
      exact ⟨a, rest, rfl, ha, hb⟩
    · rintro ⟨a', rest', he, ha, hw⟩
      simp only [List.cons.injEq] at he
      obtain ⟨rfl, rfl, -⟩ := he
      exact ⟨⟨ha, hw⟩, rfl⟩

theorem offence?_eq_some : offence? o name above = some w ↔ Nested o name above w := by
  rw [offence?, offenceOf_eq_some]
  constructor
  · rintro ⟨a, rest, he, ha, hw⟩
    rcases scopes_eq_or o name above with hs | ⟨l, hl, hs⟩
    · exact ⟨[], a, rest, hs.trans he, Or.inl rfl, ha, hw⟩
    · exact ⟨[l], a, rest, by rw [hs, he]; rfl, Or.inr ⟨l, rfl, hl⟩, ha, hw⟩
  · rintro ⟨path, a, rest, rfl, rfl | ⟨l, rfl, hl⟩, ha, hw⟩
    · have hf : foreign o name a.content = false := by
        rw [Bool.eq_false_iff]
        exact fun hf => Bool.false_ne_true ((wraps_of_foreign hf).symm.trans ha)
      exact ⟨a, rest, by rw [List.nil_append, scopes, hf]; rfl, ha, hw⟩
    · exact ⟨a, rest, by rw [List.singleton_append, scopes, if_pos hl], ha, hw⟩

theorem offence?_eq_none : offence? o name above = none ↔ ∀ w, ¬Nested o name above w := by
  simp only [← offence?_eq_some, Option.eq_none_iff_forall_ne_some, ne_eq]

end Scope

/-- **What is read and planted** is a sheet that stands in the forest. -/
theorem Tree.stands_of_parse {css : Text} {t : Tree} (ht : Tree.parse css = .ok t) (f : Forest) :
    (f.plant t).2.Stands (t.planted f.size) ∧ (f.plant t).1 = (t.planted f.size).id ∧
      (t.planted f.size).tree.Sheet :=
  ⟨Forest.stands_plant f t, (Tree.id_planted f.size t).symm,
    (Tree.tree_planted f.size t).symm ▸ Tree.sheet_of_parse ht⟩

namespace Grouping

/-- The annotation at the end of a sheet holds no block. -/
theorem filter_media_bare {p : Planted} (h : p.tree.Sheet) :
    p.bare.inner.filter Site.isMedia = p.inner.filter Site.isMedia := by
  cases ha : p.annotation? with
  | none => rw [Planted.bare_of_none ha]
  | some c =>
    have hs := Planted.children_of_annotation ha
    have hc : c ∈ p.children := hs ▸ List.mem_append_right _ List.mem_cons_self
    obtain ⟨k, hk⟩ := exists_comment_of_annotation (Option.filter_eq_some_iff.1 ha).2
    obtain ⟨l, cs⟩ := c
    have hk : l.content = .comment k := hk
    have hx : ⟨[p.label], .node l cs⟩ ∈ p.sites [] :=
      Planted.child_mem_sites (p.self_mem_sites []) hc
    have hnil : cs = [] := h.contained _ hx (by
      rw [show (Planted.node l cs).content = l.content from rfl, hk]
      rfl)
    have hm : Site.isMedia ⟨[p.label], .node l []⟩ = false := by
      rw [Site.isMedia, show (Planted.node l []).content = l.content from rfl, hk]
      rfl
    rw [Planted.inner, Planted.inner, p.label_bare, hs, Planted.sitesAll_concat,
      Planted.sitesAll_singleton, List.filter_append, hnil, Planted.sites, Planted.sitesAll,
      List.filter_cons_of_neg (by simp [hm]), List.filter_nil,
      List.append_nil]

end Grouping

namespace Forest.Stands

open Grouping (mediaName transform)

variable {o : Options} {f : Forest} {t : Planted} {e : NestedWrapper}

/-- **A run that fails** has met a nested wrapper above some block, and above none
before it. -/
theorem nested_of_failure (h : f.Stands t) (ht : t.tree.Sheet) (hm : Mild o t.bare)
    (he : (transform o f t.id).failure = some e) :
    ∃ before x after w, t.inner.filter Site.isMedia = before ++ x :: after ∧
      (∀ y ∈ before, ∀ v, ¬Scope.Nested o mediaName y.above v) ∧
      Scope.Nested o mediaName x.above w ∧ e = .ofLabel w ∧
      (transform o f t.id).forest.Stands (t.bare.prune (gone o before)) := by
  obtain ⟨before, x, after, hsplit, hstands, hnested⟩ := h.transform_of_some ht he
  obtain ⟨hnone, w, hw, rfl⟩ := hnested hm
  exact ⟨before, x, after, w, Grouping.filter_media_bare ht ▸ hsplit,
    fun y hy => Scope.offence?_eq_none.1 (hnone y hy), Scope.offence?_eq_some.1 hw, rfl, hstands⟩

/-- **A run ends well exactly if no block stands below a nested wrapper.** -/
theorem failure_eq_none_iff (h : f.Stands t) (ht : t.tree.Sheet) (hm : Mild o t.bare) :
    (transform o f t.id).failure = none ↔
      ∀ x ∈ t.inner, x.isMedia = true → ∀ w, ¬Scope.Nested o mediaName x.above w := by
  constructor
  · intro hnone x hx hxm
    refine Scope.offence?_eq_none.1 ((h.transform_of_none ht hnone).2 hm x ?_)
    rw [Grouping.filter_media_bare ht]
    exact List.mem_filter.2 ⟨hx, hxm⟩
  · intro hno
    by_contra hne
    obtain ⟨e, he⟩ := Option.ne_none_iff_exists'.1 hne
    obtain ⟨before, x, after, w, hsplit, -, hw, -⟩ := h.nested_of_failure ht hm he
    have hx : x ∈ t.inner.filter Site.isMedia := hsplit ▸ by simp
    obtain ⟨hx, hxm⟩ := List.mem_filter.1 hx
    exact hno x hx hxm w hw

end Forest.Stands

namespace Grouping

variable {o : Options} {css : Text} {t : Tree}

/-- **A run fails exactly if a block stands below a nested wrapper.** The error
names the outer wrapper of the first such block in pre-order. What is left of the
sheet is what it was without its annotation, and without those of the blocks before
that leave their place. -/
theorem transform_nested (hb : o.Blind) (hm : o.SparesMedia) (ht : Tree.parse css = .ok t)
    (f : Forest) :
    let sheet := t.planted f.size
    let run := transform o (f.plant t).2 (f.plant t).1
    (run.failure ≠ none ↔
      ∃ x ∈ sheet.inner, x.isMedia = true ∧ ∃ w, Scope.Nested o mediaName x.above w) ∧
    ∀ e, run.failure = some e → ∃ before x after w,
      sheet.inner.filter Site.isMedia = before ++ x :: after ∧
      (∀ y ∈ before, ∀ v, ¬Scope.Nested o mediaName y.above v) ∧
      Scope.Nested o mediaName x.above w ∧ e = .ofLabel w ∧
      run.forest.Stands (sheet.bare.prune (gone o before)) ∧
      run.forest.tree (f.plant t).1 = (sheet.bare.prune (gone o before)).tree := by
  intro sheet run
  obtain ⟨h, hid, hsheet⟩ := Tree.stands_of_parse ht f
  have hid : (f.plant t).1 = sheet.id := hid
  have hmild : Mild o sheet.bare := hb.mild hm _
  have hrun : run = transform o (f.plant t).2 sheet.id :=
    congrArg (transform o (f.plant t).2) hid
  constructor
  · rw [hrun, ne_eq, h.failure_eq_none_iff hsheet hmild]
    push Not
    rfl
  · intro e he
    rw [hrun] at he ⊢
    obtain ⟨before, x, after, w, hsplit, hbefore, hw, hew, hstands⟩ :=
      h.nested_of_failure hsheet hmild he
    have htree := hstands.tree_top
    rw [Planted.id_prune, Planted.id_bare] at htree
    exact ⟨before, x, after, w, hsplit, hbefore, hw, hew, hstands, by rw [hid, htree]⟩

/-- The first block is taken and the annotation set aside when the run stops at the other block,
whose wrapper is inside another one. -/
theorem transform_nested_mqgroup : ∃ t,
    Tree.parse "@media a{}@mqgroup{@mqgroup{@media b{}}}/*# sourceMappingURL=c*/".toList = .ok t ∧
      let run := transform {} (Forest.empty.plant t).2 (Forest.empty.plant t).1
      let wrapper : Content := .atRule ⟨"mqgroup".toList, [], true⟩
      run.failure = some ⟨"mqgroup".toList, [], some ⟨1, 11⟩⟩ ∧
      run.forest.tree (Forest.empty.plant t).1 = .node .root none
        [.node wrapper (some ⟨1, 11⟩) [.node wrapper (some ⟨1, 20⟩)
          [.node (.atRule ⟨mediaName, ['b'], true⟩) (some ⟨1, 29⟩) []]]] := by
  let wrapper : Content := .atRule ⟨"mqgroup".toList, [], true⟩
  let block (params : Text) : Content := .atRule ⟨mediaName, params, true⟩
  let sheet : Tree := .node .root none [.node (block ['a']) (some ⟨1, 1⟩) [],
    .node wrapper (some ⟨1, 11⟩) [.node wrapper (some ⟨1, 20⟩)
      [.node (block ['b']) (some ⟨1, 29⟩) []]],
    .node (.comment ⟨"# sourceMappingURL=c".toList, [], []⟩) (some ⟨1, 41⟩) []]
  let root : Label := ⟨0, .root, none⟩
  let outer : Label := ⟨2, wrapper, some ⟨1, 11⟩⟩
  let taken : Site := ⟨[root], .node ⟨1, block ['a'], some ⟨1, 1⟩⟩ []⟩
  let stopped : Site := ⟨[⟨3, wrapper, some ⟨1, 20⟩⟩, outer, root],
    .node ⟨4, block ['b'], some ⟨1, 29⟩⟩ []⟩
  have ht : Tree.parse "@media a{}@mqgroup{@mqgroup{@media b{}}}/*# sourceMappingURL=c*/".toList
      = .ok sheet := rfl
  have hblocks : (sheet.planted 0).inner.filter Site.isMedia = [taken, stopped] := rfl
  have htaken : ∀ w, ¬ Scope.Nested {} mediaName taken.above w := Scope.offence?_eq_none.1 rfl
  have hstopped : Scope.offence? {} mediaName stopped.above = some outer := rfl
  obtain ⟨hfails, hleft⟩ := transform_nested (o := {}) (.of_named rfl)
    (.of_named rfl (by decide)) ht Forest.empty
  refine ⟨sheet, ht, ?_⟩
  intro run wrapper
  have hmem : stopped ∈ (sheet.planted 0).inner.filter Site.isMedia :=
    hblocks ▸ List.mem_cons_of_mem _ List.mem_cons_self
  obtain ⟨hmem, hmedia⟩ := List.mem_filter.1 hmem
  obtain ⟨e, he⟩ := Option.ne_none_iff_exists'.1
    (hfails.2 ⟨stopped, hmem, hmedia, outer, Scope.offence?_eq_some.1 hstopped⟩)
  obtain ⟨before, x, after, w, hsplit, -, hw, rfl, -, htree⟩ := hleft e he
  have hsplit : [taken, stopped] = before ++ x :: after := hblocks.symm.trans hsplit
  -- the block that is taken is below no nested wrapper, so it comes before the one that is not
  match before with
  | [] =>
    obtain ⟨rfl, -⟩ := List.cons.inj hsplit
    exact absurd hw (htaken w)
  | [y] =>
    obtain ⟨rfl, hrest⟩ := List.cons.inj hsplit
    obtain ⟨rfl, -⟩ := List.cons.inj hrest
    obtain rfl := Option.some.inj (hstopped.symm.trans (Scope.offence?_eq_some.2 hw))
    exact ⟨he, htree⟩
  | y :: z :: before => simp at hsplit

end Grouping
end MediaGrouping
