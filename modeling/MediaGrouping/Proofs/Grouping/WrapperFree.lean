/-
# Sheets without wrappers

Dissolving leaves no wrapper (`Tree.free_dissolveAll`), and grouping makes none: the
blocks that leave a scope without wrappers, and what stays of it, are without
wrappers (`Grouping.groupedAll_of_free`).
-/

import MediaGrouping.Proofs.Grouping.NestedWrappers

namespace MediaGrouping

namespace Tree

mutual

/-- What the nodes of a tree are, in pre-order. -/
def contents : Tree → List Content
  | .node c _ cs => c :: contentsAll cs

/-- What the nodes of several trees are. -/
def contentsAll : List Tree → List Content
  | [] => []
  | t :: ts => t.contents ++ contentsAll ts

end

/-- **No node of the tree is accepted** as a wrapper. -/
def Free (o : Options) (t : Tree) : Prop := ∀ c ∈ t.contents, o.wrapper c = false

variable {o : Options} {t : Tree} {ts : List Tree}

theorem forall_contentsAll {p : Content → Prop} :
    (∀ c ∈ contentsAll ts, p c) ↔ ∀ t ∈ ts, ∀ c ∈ t.contents, p c := by
  induction ts with
  | nil => simp [contentsAll]
  | cons t ts ih => rw [contentsAll, List.forall_mem_append, ih, List.forall_mem_cons]

theorem free_node {c : Content} {s : Option Position} :
    (node c s ts).Free o ↔ o.wrapper c = false ∧ ∀ t ∈ ts, t.Free o := by
  rw [Free, contents, List.forall_mem_cons, forall_contentsAll]
  rfl

theorem Free.content (h : t.Free o) : o.wrapper t.content = false := by
  obtain ⟨c, s, cs⟩ := t
  exact (free_node.1 h).1

theorem Free.children (h : t.Free o) : ∀ c ∈ t.children, c.Free o := by
  obtain ⟨c, s, cs⟩ := t
  exact (free_node.1 h).2

theorem free_of_children (hc : o.wrapper t.content = false) (h : ∀ c ∈ t.children, c.Free o) :
    t.Free o := by
  obtain ⟨c, s, cs⟩ := t
  exact free_node.2 ⟨hc, h⟩

theorem Free.wraps (h : t.Free o) : o.wraps t.content = false := by
  rw [Options.wraps, h.content, Bool.and_false]

/-- Where there is no wrapper nothing dissolves. -/
theorem dissolveAll_of_free : ∀ {ts : List Tree}, (∀ t ∈ ts, t.Free o) → dissolveAll o ts = ts
  | [], _ => by rw [dissolveAll]
  | .node c s cs :: ts, h => by
    rw [List.forall_mem_cons] at h
    have hw : o.wraps c = false := h.1.wraps
    have hcs : ∀ c ∈ cs, c.Free o := h.1.children
    rw [dissolveAll_node, if_neg (by simp [hw]), dissolveAll_of_free hcs,
      dissolveAll_of_free h.2]

/-- **Dissolving leaves no wrapper.** -/
theorem free_dissolveAll : ∀ {ts : List Tree}, (∀ t ∈ ts, t.Branch) →
    ∀ t ∈ dissolveAll o ts, t.Free o
  | [], _ => by
    rw [dissolveAll]
    exact List.forall_mem_nil _
  | .node c s cs :: ts, h => by
    rw [List.forall_mem_cons] at h
    have hb : ∀ c ∈ cs, c.Branch := h.1.children
    have hcs := free_dissolveAll hb
    have hts := free_dissolveAll h.2
    rw [dissolveAll_node]
    split_ifs with hw
    · exact List.forall_mem_append.2 ⟨hcs, hts⟩
    · refine List.forall_mem_cons.2 ⟨free_node.2 ⟨?_, hcs⟩, hts⟩
      have hr : c.isRoot = false := h.1.content
      rw [Options.wraps_eq, hr, Bool.not_false, Bool.true_and, Bool.not_eq_true] at hw
      exact hw

theorem Free.extend (hb : o.Blind) (h : t.Free o) (hts : ∀ c ∈ ts, c.Free o) :
    (t.extend ts).Free o := by
  refine free_of_children ?_ fun c hc => ?_
  · rcases content_extend t ts with he | he
    · exact he ▸ h.content
    · rw [he, hb]
      exact h.content
  · rw [children_extend] at hc
    exact (List.mem_append.1 hc).elim (h.children c) (hts c)

theorem Free.enclosed (hb : o.Blind) (h : t.Free o) {rule : AtRule}
    (hr : o.wrapper (.atRule rule) = false) : (t.enclosed rule).Free o := by
  have hinner : (node (.atRule { rule with hasBlock := true }) none t.children).Free o :=
    free_of_children ((hb (.atRule rule)).trans hr) h.children
  exact free_of_children ((hb t.content).trans h.content) (List.forall_mem_singleton.2 hinner)

end Tree

namespace Grouping

variable {o : Options} {cs : List Tree}

theorem free_trimmed {c : Tree} (h : c.Free o) : (trimmed o c).Free o :=
  Tree.free_of_children (by rw [content_trimmed]; exact h.content) fun d hd =>
    h.children d (mem_children_trimmed hd)

theorem free_rest (h : ∀ c ∈ cs, c.Free o) : ∀ c ∈ rest o cs, c.Free o := by
  intro c hc
  obtain ⟨d, hd, -, rfl⟩ := mem_rest.1 hc
  exact free_trimmed (h d hd)

theorem free_blocks (hb : o.Blind) (h : ∀ c ∈ cs, c.Free o) : ∀ b ∈ blocks o cs, b.Free o :=
  forall_blocks (fun c hc _ => h c hc) fun c hc _ hr d hd _ =>
    ((h c hc).children d hd).enclosed hb ((foreignRule?_eq_some hr).2 ▸ (h c hc).content)

theorem free_emission (hb : o.Blind) (h : ∀ c ∈ cs, c.Free o) : ∀ b ∈ emission o cs, b.Free o := by
  have hall : ∀ b ∈ emission o cs, ∃ _ : Text, b.Free o :=
    forall_emission (free_blocks hb h) fun _ t u ht hu => ht.extend hb hu.children
  exact fun b hm => (hall b hm).elim fun _ hf => hf

/-- **Without wrappers** there is one scope only. -/
theorem groupedAll_of_free (hb : o.Blind) (h : ∀ c ∈ cs, c.Free o) :
    groupedAll o cs = rest o cs ++ emission o cs := by
  have hopened : (rest o cs).flatMap (opened o) = rest o cs := by
    rw [List.flatMap_congr fun c hc => show opened o c = [c] from
      if_neg (by simp [(free_rest h c hc).wraps])]
    exact List.flatMap_singleton' _
  rw [groupedAll, hopened]
  exact Tree.dissolveAll_of_free (List.forall_mem_append.2 ⟨free_rest h, free_emission hb h⟩)

/-- **A grouped sheet is without wrappers** below its root. -/
theorem free_grouped {t : Tree} (hs : o.SparesStyles) (ht : t.Sheet) :
    ∀ c ∈ (grouped o t).children, c.Free o := by
  refine List.forall_mem_append.2 ⟨?_, fun c hc => ?_⟩
  · exact Tree.free_dissolveAll (branch_opened fun c hc => ht.branches c (mem_of_mem_body hc))
  · obtain ⟨hmem, hann⟩ := mem_of_annotationOf (Option.mem_toList.1 hc)
    have hcontainer : c.content.isContainer = false := by
      obtain ⟨k, hk⟩ := exists_comment_of_annotation hann
      rw [hk]
      rfl
    refine Tree.free_of_children (hs _ hcontainer) ?_
    rw [(ht.branches c hmem).children_eq_nil hcontainer]
    exact List.forall_mem_nil _

end Grouping
end MediaGrouping
