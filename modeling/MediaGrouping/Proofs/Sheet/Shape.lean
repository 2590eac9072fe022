/-
# The shape of sheets

A sheet has a root at its top and nowhere else, and only nodes that a search
looks into have children. Whatever is read is a sheet (`Tree.sheet_of_parse`): no
segment stands for a root, and only what is written with braces opens a block.
-/

import MediaGrouping.Proofs.Sheet.Assembling

namespace MediaGrouping

namespace Tree

/-- **A branch of a sheet**: there is no root in it, and only nodes that a search
looks into have children. -/
inductive Branch : Tree → Prop where
  | node {content : Content} {source : Option Position} {children : List Tree} :
    content.isRoot = false → (content.isContainer = false → children = []) →
    (∀ c ∈ children, Branch c) → Branch (.node content source children)

namespace Branch

variable {t : Tree}

theorem content (h : t.Branch) : t.content.isRoot = false := by
  cases h with
  | node hr _ _ => exact hr

theorem children_eq_nil (h : t.Branch) (hc : t.content.isContainer = false) : t.children = [] := by
  cases h with
  | node _ hn _ => exact hn hc

theorem children (h : t.Branch) : ∀ c ∈ t.children, c.Branch := by
  cases h with
  | node _ _ hb => exact hb

end Branch

/-- **A sheet**: branches below a root. -/
structure Sheet (t : Tree) : Prop where
  root : t.content = .root
  branches : ∀ c ∈ t.children, c.Branch

/-- A tree without a root, in which only blocks have children, is a branch. -/
theorem Shaped.branch {t : Tree} (h : t.Shaped (·.isRoot = false)) : t.Branch := by
  induction h with
  | @node content source children hr hn _ ih =>
    refine .node hr (fun hc => hn ?_) ih
    cases content <;> first | rfl | cases hc

/-- **Whatever is read is a sheet.** -/
theorem sheet_of_parse {css : Text} {t : Tree} (h : parse css = .ok t) : t.Sheet := by
  obtain ⟨ts, rfl, -⟩ := row_of_parse h
  exact ⟨rfl, fun c hc => (shaped_of_parse (fun hs _ => hs.shaped) h c hc).branch⟩

end Tree
end MediaGrouping
