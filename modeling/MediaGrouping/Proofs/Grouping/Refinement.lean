/-
# A run computes a function of the sheet

What a run does, in steps, to nodes that are linked to each other, is a function of
the sheet as a tree: unless a block stands below a nested wrapper, the run ends well
and leaves `Grouping.grouped` of the sheet.
-/

import MediaGrouping.Proofs.Grouping.NestedWrappers

namespace MediaGrouping
namespace Grouping

variable {o : Options} {css : Text} {t : Tree}

/-- What a run that ends well leaves of a sheet that was read. -/
theorem tree_of_transform (ht : Tree.parse css = .ok t) {f : Forest}
    (hok : (transform o (f.plant t).2 (f.plant t).1).failure = none) :
    (transform o (f.plant t).2 (f.plant t).1).forest.tree (f.plant t).1 = grouped o t := by
  obtain ⟨h, hid, hsheet⟩ := Tree.stands_of_parse ht f
  rw [hid] at hok ⊢
  obtain ⟨⟨t', hstands, hid', htree⟩, -⟩ := h.transform_of_none hsheet hok
  have htop := hstands.tree_top
  rw [hid', htree, Tree.tree_planted] at htop
  exact htop

/-- **Runs compute a function of the sheet.** They end well exactly if no block
stands below a nested wrapper, and then leave the sheet grouped. -/
theorem transform_refines_grouped (hb : o.Blind) (hm : o.SparesMedia)
    (ht : Tree.parse css = .ok t) (f : Forest) :
    let run := transform o (f.plant t).2 (f.plant t).1
    (run.failure = none ↔ ∀ x ∈ (t.planted f.size).inner, x.isMedia = true →
      ∀ w, ¬Scope.Nested o mediaName x.above w) ∧
    (run.failure = none → run.forest.tree (f.plant t).1 = grouped o t) := by
  intro run
  obtain ⟨h, hid, hsheet⟩ := Tree.stands_of_parse ht f
  have hrun : run = transform o (f.plant t).2 (t.planted f.size).id :=
    congrArg (transform o (f.plant t).2) hid
  refine ⟨?_, tree_of_transform ht⟩
  rw [hrun]
  exact h.failure_eq_none_iff hsheet (hb.mild hm _)

theorem transform_refines_grouped_mqgroup : ∃ t,
    Tree.parse "@supports(top:0){@media a{b{}}}@mqgroup{@media a{}}@media a{c{}}".toList = .ok t ∧
      (transform {} (Forest.empty.plant t).2 (Forest.empty.plant t).1).failure = none ∧
      (transform {} (Forest.empty.plant t).2 (Forest.empty.plant t).1).forest.tree
        (Forest.empty.plant t).1 = grouped {} t := by
  have hb : Options.Blind {} := .of_named rfl
  have hm : Options.SparesMedia {} := .of_named rfl (by decide)
  obtain ⟨t, ht, hok⟩ : ∃ t, Tree.parse
      "@supports(top:0){@media a{b{}}}@mqgroup{@media a{}}@media a{c{}}".toList = .ok t ∧
        (transform {} (Forest.empty.plant t).2 (Forest.empty.plant t).1).failure = none :=
    ⟨_, rfl, by decide +kernel⟩
  exact ⟨t, ht, hok, (transform_refines_grouped hb hm ht Forest.empty).2 hok⟩

end Grouping
end MediaGrouping
