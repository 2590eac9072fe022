/-
# Sheets stay sheets

Everything that grouping makes of branches is a branch, and so a grouped sheet is
a sheet again (`Grouping.sheet_grouped`). A planted sheet has its root at the top
and nowhere else, and a search finds all of it (`Tree.Sheet.isSheet`,
`Tree.Sheet.contained`).
-/

import MediaGrouping.Proofs.Forest.Standing
import MediaGrouping.Proofs.Grouping.Pieces
import MediaGrouping.Proofs.Grouping.Sheets
import MediaGrouping.Proofs.Sheet.Shape

namespace MediaGrouping

namespace Tree

variable {o : Options} {t u : Tree} {ts : List Tree}

theorem isContainer_of_isMedia (h : t.isMedia = true) : t.content.isContainer = true := by
  obtain ⟨r, hr, -⟩ := exists_atRule_of_isMedia h
  rw [hr]
  rfl

namespace Branch

theorem mk_of_container (hr : t.content.isRoot = false) (hc : t.content.isContainer = true)
    (hb : ∀ c ∈ t.children, c.Branch) : t.Branch := by
  obtain ⟨c, s, cs⟩ := t
  refine .node hr (fun h => ?_) hb
  rw [show c.isContainer = true from hc] at h
  cases h

theorem withChildren (h : t.Branch) (hc : t.content.isContainer = false → ts = [])
    (hb : ∀ c ∈ ts, c.Branch) : (t.withChildren ts).Branch :=
  .node h.content hc hb

theorem extend (h : t.Branch) (hc : t.content.isContainer = true) (hb : ∀ c ∈ ts, c.Branch) :
    (t.extend ts).Branch := by
  have hcontent := content_extend t ts
  refine mk_of_container ?_ ?_ fun c hm => ?_
  · rcases hcontent with he | he
    · exact he ▸ h.content
    · rw [he, Content.isRoot_withBlock]
      exact h.content
  · rcases hcontent with he | he
    · exact he ▸ hc
    · rw [he, Content.isContainer_withBlock]
      exact hc
  · rw [children_extend] at hm
    exact (List.mem_append.1 hm).elim (h.children c) (hb c)

theorem enclosed (h : t.Branch) (hc : t.content.isContainer = true) (rule : AtRule) :
    (t.enclosed rule).Branch := by
  refine mk_of_container ?_ ?_ (List.forall_mem_singleton.2 (mk_of_container rfl rfl h.children))
  · exact (Content.isRoot_withBlock t.content).trans h.content
  · exact (Content.isContainer_withBlock t.content).trans hc

/-- **Dissolving wrappers** leaves branches. -/
theorem dissolveAll : ∀ {ts : List Tree}, (∀ t ∈ ts, t.Branch) →
    ∀ t ∈ Tree.dissolveAll o ts, t.Branch
  | [], _ => by
    rw [Tree.dissolveAll]
    exact List.forall_mem_nil _
  | .node c s cs :: ts, h => by
    rw [List.forall_mem_cons] at h
    have hb : ∀ c ∈ cs, c.Branch := h.1.children
    have hcs := dissolveAll hb
    have hts := dissolveAll h.2
    rw [Tree.dissolveAll_node]
    split_ifs
    · exact List.forall_mem_append.2 ⟨hcs, hts⟩
    · refine List.forall_mem_cons.2 ⟨.node h.1.content (fun hc => ?_) hcs, hts⟩
      have hnil : cs = [] := h.1.children_eq_nil hc
      rw [hnil, Tree.dissolveAll]

end Branch

end Tree

namespace Planted

variable {P : Tree → Prop} {p c : Planted}

theorem tree_mem_children (h : c ∈ p.children) : c.tree ∈ p.tree.children := by
  rw [children_tree, trees_eq]
  exact List.mem_map_of_mem h

/-- **What passes from trees to their children** holds at all sites. -/
theorem forall_sites (hP : ∀ t, P t → ∀ c ∈ t.children, P c) (above : List Label) (h : P p.tree) :
    ∀ x ∈ p.sites above, P x.here.tree := by
  induction p using Planted.induction generalizing above with
  | node l cs ih =>
    intro x hx
    rcases List.mem_cons.1 hx with rfl | hx
    · exact h
    · obtain ⟨c, hc, hx⟩ := mem_sitesAll.1 hx
      exact ih c hc (l :: above) (hP _ h _ (tree_mem_children hc)) x hx

theorem forall_inner (hP : ∀ t, P t → ∀ c ∈ t.children, P c) (h : ∀ c ∈ p.tree.children, P c) :
    ∀ x ∈ p.inner, P x.here.tree := by
  intro x hx
  obtain ⟨c, hc, hx⟩ := mem_sitesAll.1 hx
  exact forall_sites hP _ (h _ (tree_mem_children hc)) x hx

end Planted

namespace Tree.Sheet

variable {p : Planted} {x : Site}

theorem branch_of_inner (h : p.tree.Sheet) (hx : x ∈ p.inner) : x.here.tree.Branch :=
  Planted.forall_inner (fun _ => Branch.children) h.branches x hx

/-- **A planted sheet** has its root at the top and nowhere else. -/
theorem isSheet (h : p.tree.Sheet) : p.IsSheet where
  root := by
    rw [← Planted.content_tree, h.root]
    rfl
  rootless := fun x hx => by
    rw [← Planted.content_tree]
    exact (h.branch_of_inner hx).content

/-- **A search finds everything** in a planted sheet. -/
theorem contained (h : p.tree.Sheet) : p.Contained := by
  intro x hx hc
  rw [← Planted.content_tree] at hc
  have hnil : x.here.tree.children = [] → x.here.children = [] := fun he => by
    rw [Planted.children_tree, Planted.trees_eq] at he
    exact List.map_eq_nil_iff.1 he
  rw [Planted.sites_nil] at hx
  rcases List.mem_cons.1 hx with rfl | hx
  · rw [show p.tree.content = .root from h.root] at hc
    cases hc
  · exact hnil ((h.branch_of_inner hx).children_eq_nil hc)

end Tree.Sheet

namespace Grouping

variable {o : Options} {t : Tree} {cs : List Tree}

theorem branch_trimmed {c : Tree} (h : c.Branch) : (trimmed o c).Branch := by
  cases hf : foreignRule? o c.content with
  | none =>
    rw [trimmed, hf]
    exact h
  | some rule =>
    rw [trimmed, hf]
    refine h.withChildren (fun hc => ?_) fun d hd => h.children d (List.mem_of_mem_filter hd)
    rw [(foreignRule?_eq_some hf).2] at hc
    cases hc

theorem branch_rest (h : ∀ c ∈ cs, c.Branch) : ∀ c ∈ rest o cs, c.Branch := by
  intro c hc
  obtain ⟨d, hd, -, rfl⟩ := mem_rest.1 hc
  exact branch_trimmed (h d hd)

theorem branch_blocks (h : ∀ c ∈ cs, c.Branch) : ∀ b ∈ blocks o cs, b.Branch :=
  forall_blocks (fun c hc _ => h c hc) fun c hc rule _ d hd hm =>
    ((h c hc).children d hd).enclosed (Tree.isContainer_of_isMedia hm) rule

theorem branch_emission (h : ∀ c ∈ cs, c.Branch) : ∀ b ∈ emission o cs, b.Branch := by
  have hall : ∀ b ∈ emission o cs, ∃ _ : Text, b.Branch ∧ b.isMedia = true :=
    forall_emission (fun b hb => ⟨branch_blocks h b hb, isMedia_of_mem_blocks hb⟩)
      fun _ t u ht hu => ⟨ht.1.extend (Tree.isContainer_of_isMedia ht.2) hu.1.children,
        (t.isMedia_extend _).trans ht.2⟩
  exact fun b hb => (hall b hb).elim fun _ hb => hb.1

/-- What a sheet is made of before its wrappers dissolve. -/
theorem branch_opened (h : ∀ c ∈ cs, c.Branch) :
    ∀ c ∈ (rest o cs).flatMap (opened o) ++ emission o cs, c.Branch := by
  refine List.forall_mem_append.2 ⟨fun c hc => ?_, branch_emission h⟩
  obtain ⟨d, hd, hc⟩ := List.mem_flatMap.1 hc
  have hb := branch_rest h d hd
  rw [opened] at hc
  split_ifs at hc
  · rcases List.mem_append.1 hc with hc | hc
    · exact branch_rest hb.children c hc
    · exact branch_emission hb.children c hc
  · rw [List.mem_singleton.1 hc]
    exact hb

theorem mem_of_mem_body {c : Tree} (h : c ∈ body cs) : c ∈ cs := by
  rw [body] at h
  split_ifs at h
  · exact List.dropLast_subset cs h
  · exact h

theorem exists_comment_of_annotation {c : Content} (h : isAnnotation c = true) :
    ∃ k, c = .comment k := by
  cases c with
  | comment k => exact ⟨k, rfl⟩
  | root | atRule | rule | declaration => cases h

theorem mem_of_annotationOf {c : Tree} (h : annotationOf cs = some c) :
    c ∈ cs ∧ isAnnotation c.content = true := by
  obtain ⟨hl, ha⟩ := Option.filter_eq_some_iff.1 h
  exact ⟨List.mem_of_getLast? hl, ha⟩

/-- A sheet's children are the annotation at their end and those before. -/
theorem body_append (cs : List Tree) : body cs ++ (annotationOf cs).toList = cs := by
  rw [body]
  cases ha : annotationOf cs with
  | none => exact List.append_nil cs
  | some c =>
    exact List.dropLast_append_getLast? c (Option.filter_eq_some_iff.1 ha).1

/-- **A grouped sheet is a sheet.** -/
theorem sheet_grouped (h : t.Sheet) : (grouped o t).Sheet where
  root := h.root
  branches := by
    refine List.forall_mem_append.2 ⟨?_, fun c hc => ?_⟩
    · exact Tree.Branch.dissolveAll (branch_opened fun c hc => h.branches c (mem_of_mem_body hc))
    · exact h.branches c (mem_of_annotationOf (Option.mem_toList.1 hc)).1

end Grouping
end MediaGrouping
