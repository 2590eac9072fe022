/-
# The conditions of declarations

A declaration applies under the selectors of the rules around it and the conditions
of the at-rules around it; wrappers put no condition. Grouping moves declarations,
copies them and puts them under other nodes, but on the whole each of them keeps its
conditions: the declarations and comments of a sheet, with the selectors in their
order and the at-rules in any order, are the same before and after
(`Grouping.styles_grouped`).
-/

import MediaGrouping.Proofs.Grouping.Refinement
import Mathlib.Algebra.Order.Group.Multiset
import Mathlib.Tactic.Abel

namespace MediaGrouping

/-- The conditions that the nodes around a node put: the selectors of rules, outermost
first, and the names and parameters of at-rules. -/
structure Conditions where
  selectors : List Text
  rules : Multiset (Text × Text)

namespace Conditions

/-- No conditions. -/
def none : Conditions := ⟨[], 0⟩

/-- The conditions inside a node; a wrapper puts none. -/
def enter (o : Options) (s : Conditions) (c : Content) : Conditions :=
  if o.wraps c then s
  else match c with
    | .rule selector => { s with selectors := s.selectors ++ [selector] }
    | .atRule r => { s with rules := (r.name, r.params) ::ₘ s.rules }
    | .root | .declaration _ | .comment _ => s

end Conditions

namespace Tree

mutual

/-- The declarations and comments of a tree, each with its conditions. -/
def styles (o : Options) (s : Conditions) : Tree → Multiset (Content × Conditions)
  | .node c _ cs => (if c.isContainer then 0 else {(c, s)}) + stylesAll o (s.enter o c) cs

/-- The declarations and comments of several trees. -/
def stylesAll (o : Options) (s : Conditions) : List Tree → Multiset (Content × Conditions)
  | [] => 0
  | t :: ts => t.styles o s + stylesAll o s ts

end

end Tree

section

variable {o : Options} {s : Conditions} {t u c : Tree} {ts us cs : List Tree}

theorem Conditions.enter_of_wrapper {c : Content} (h : o.wraps c = true) : s.enter o c = s :=
  if_pos h

theorem Conditions.enter_withBlock (hb : o.Blind) (c : Content) :
    s.enter o c.withBlock = s.enter o c := by
  unfold enter
  rw [hb.wraps_withBlock]
  cases c <;> rfl

/-- Two at-rules put their conditions in any order. -/
theorem Conditions.enter_comm (r r' : AtRule) :
    (s.enter o (.atRule r)).enter o (.atRule r')
      = (s.enter o (.atRule r')).enter o (.atRule r) := by
  simp only [enter]
  split_ifs
  · rfl
  · rfl
  · rfl
  · rw [Multiset.cons_swap]

/-- At-rules that differ in nothing but their blocks put the same condition. -/
theorem Conditions.enter_congr (hb : o.Blind) {r r' : AtRule} (hn : r.name = r'.name)
    (hp : r.params = r'.params) : s.enter o (.atRule r) = s.enter o (.atRule r') := by
  obtain ⟨name, params, hasBlock⟩ := r
  obtain ⟨name', params', hasBlock'⟩ := r'
  obtain rfl : name = name' := hn
  obtain rfl : params = params' := hp
  exact (enter_withBlock hb (.atRule ⟨name, params, hasBlock⟩)).symm.trans
    (enter_withBlock hb (.atRule ⟨name, params, hasBlock'⟩))

namespace Tree

theorem stylesAll_append (ts us : List Tree) :
    stylesAll o s (ts ++ us) = stylesAll o s ts + stylesAll o s us := by
  induction ts with
  | nil => rw [List.nil_append, stylesAll, zero_add]
  | cons t ts ih => rw [List.cons_append, stylesAll, stylesAll, ih, add_assoc]

theorem stylesAll_perm (h : ts.Perm us) : stylesAll o s ts = stylesAll o s us := by
  induction h with
  | nil => rfl
  | cons t _ ih => rw [stylesAll, stylesAll, ih]
  | swap t u ts => rw [stylesAll, stylesAll, stylesAll, stylesAll, add_left_comm]
  | trans _ _ ih₁ ih₂ => rw [ih₁, ih₂]

theorem stylesAll_filter (p : Tree → Bool) (ts : List Tree) :
    stylesAll o s ts = stylesAll o s (ts.filter p) + stylesAll o s (ts.filter (!p ·)) := by
  rw [← stylesAll_append]
  exact stylesAll_perm (List.filter_append_perm p ts).symm

theorem styles_of_container (h : t.content.isContainer = true) :
    t.styles o s = stylesAll o (s.enter o t.content) t.children := by
  obtain ⟨c, src, cs⟩ := t
  have hc : c.isContainer = true := h
  rw [styles, if_pos hc, zero_add]
  rfl

/-- A wrapper's children are under the conditions of the wrapper. -/
theorem styles_of_wrapper (hs : o.SparesStyles) (hw : o.wraps t.content = true) :
    t.styles o s = stylesAll o s t.children := by
  rw [styles_of_container (hs.isContainer hw), Conditions.enter_of_wrapper hw]

/-- **Dissolving wrappers** changes no conditions. -/
theorem stylesAll_dissolveAll (hs : o.SparesStyles) :
    ∀ (s : Conditions) (ts : List Tree), stylesAll o s (dissolveAll o ts) = stylesAll o s ts
  | s, [] => by rw [dissolveAll]
  | s, .node c src cs :: ts => by
    have hcs := stylesAll_dissolveAll hs (s.enter o c) cs
    have hts := stylesAll_dissolveAll hs s ts
    rw [dissolveAll_node]
    split_ifs with hw
    · rw [Conditions.enter_of_wrapper hw] at hcs
      rw [stylesAll_append, hcs, hts, stylesAll,
        styles_of_wrapper hs (t := .node c src cs) hw]
      rfl
    · rw [stylesAll, stylesAll, styles, styles, hcs, hts]

theorem stylesAll_map {s' : Conditions} {g : Tree → Tree}
    (h : ∀ t ∈ ts, (g t).styles o s = t.styles o s') :
    stylesAll o s (ts.map g) = stylesAll o s' ts := by
  induction ts with
  | nil => rfl
  | cons t ts ih =>
    rw [List.forall_mem_cons] at h
    rw [List.map_cons, stylesAll, stylesAll, h.1, ih h.2]

/-- **Enclosing a block** in a copy of the at-rule around it keeps all conditions. -/
theorem styles_enclosed (hb : o.Blind) (rule : AtRule) (hm : t.isMedia = true) :
    (t.enclosed rule).styles o s = t.styles o (s.enter o (.atRule rule)) := by
  obtain ⟨r, hr, -⟩ := exists_atRule_of_isMedia hm
  have hcontainer : (t.enclosed rule).content.isContainer = true :=
    (Content.isContainer_withBlock _).trans (isContainer_of_isMedia hm)
  have hrule : ∀ s', Conditions.enter o s' (.atRule { rule with hasBlock := true })
      = Conditions.enter o s' (.atRule rule) := fun s' =>
    Conditions.enter_withBlock hb (.atRule rule)
  calc (t.enclosed rule).styles o s
      = stylesAll o (s.enter o t.content.withBlock)
          [.node (.atRule { rule with hasBlock := true }) none t.children] :=
        styles_of_container hcontainer
    _ = stylesAll o ((s.enter o t.content).enter o (.atRule rule)) t.children := by
        rw [stylesAll, stylesAll, add_zero, ← hrule, ← Conditions.enter_withBlock hb t.content]
        exact styles_of_container rfl
    _ = t.styles o (s.enter o (.atRule rule)) := by
        rw [styles_of_container (isContainer_of_isMedia hm), hr, Conditions.enter_comm]

/-- **Merging blocks** with one query list keeps all conditions. -/
theorem styles_extend (hb : o.Blind) (ht : t.isMedia = true) (hu : u.isMedia = true)
    (hq : t.query = u.query) :
    (t.extend u.children).styles o s = t.styles o s + u.styles o s := by
  obtain ⟨r, hr, hrn, hrq⟩ := exists_atRule_of_isMedia ht
  obtain ⟨r', hr', hrn', hrq'⟩ := exists_atRule_of_isMedia hu
  have he : s.enter o (.atRule r) = s.enter o (.atRule r') :=
    Conditions.enter_congr hb (hrn.trans hrn'.symm) (hrq.trans (hq.trans hrq'.symm))
  have hx : s.enter o (t.extend u.children).content = s.enter o t.content := by
    rcases content_extend t u.children with hc | hc
    · rw [hc]
    · rw [hc, Conditions.enter_withBlock hb]
  have hm : (t.extend u.children).isMedia = true := (t.isMedia_extend _).trans ht
  rw [styles_of_container (isContainer_of_isMedia hm), hx, children_extend, stylesAll_append,
    styles_of_container (isContainer_of_isMedia ht),
    styles_of_container (isContainer_of_isMedia hu), hr, hr', he]

end Tree

namespace Grouping

open MediaGrouping.Tree (styles stylesAll)

/-- **What leaves a node and what stays** of it make up the node. -/
theorem styles_trimmed (hb : o.Blind) (hm : c.isMedia = false) :
    (trimmed o c).styles o s + stylesAll o s (blocksOf o c) = c.styles o s := by
  rw [blocksOf, if_neg (by simp [hm]), trimmed]
  cases hf : foreignRule? o c.content with
  | none => exact add_zero _
  | some rule =>
    have hc := (foreignRule?_eq_some hf).2
    have hcontainer : c.content.isContainer = true := by
      rw [hc]
      rfl
    have hblocks : stylesAll o s ((c.children.filter Tree.isMedia).map (Tree.enclosed rule))
        = stylesAll o (s.enter o (.atRule rule)) (c.children.filter Tree.isMedia) :=
      Tree.stylesAll_map fun d hd => Tree.styles_enclosed hb rule (List.mem_filter.1 hd).2
    have hkids : (c.withChildren (c.children.filter (!·.isMedia))).styles o s
        = stylesAll o (s.enter o (.atRule rule)) (c.children.filter (!·.isMedia)) := by
      rw [Tree.styles_of_container (t := c.withChildren _) hcontainer, Tree.content_withChildren,
        hc, Tree.children_withChildren]
    rw [hblocks, hkids, Tree.styles_of_container hcontainer, hc,
      Tree.stylesAll_filter Tree.isMedia c.children, add_comm]

/-- **The blocks that leave a scope and what stays** of it make up the scope. -/
theorem stylesAll_rest (hb : o.Blind) (s : Conditions) (cs : List Tree) :
    stylesAll o s (rest o cs) + stylesAll o s (blocks o cs) = stylesAll o s cs := by
  induction cs with
  | nil => exact add_zero 0
  | cons c cs ih =>
    rw [blocks, List.flatMap_cons, Tree.stylesAll_append, ← blocks, stylesAll, ← ih, rest]
    cases hm : c.isMedia with
    | false =>
      rw [List.filter_cons_of_pos (by simp [hm]), List.map_cons, stylesAll, ← rest,
        ← styles_trimmed hb hm]
      exact add_add_add_comm _ _ _ _
    | true =>
      rw [List.filter_cons_of_neg (by simp [hm]), ← rest, blocksOf,
        if_pos hm, stylesAll, stylesAll, add_zero]
      exact add_left_comm _ _ _

theorem stylesAll_mergeBlock (hb : o.Blind) {r : Registry Tree} (hr : IsMerged r)
    (ht : t.isMedia = true) : stylesAll o s ((mergeBlock r t).map Prod.snd)
      = stylesAll o s (r.map Prod.snd) + t.styles o s := by
  cases hf : Registry.find? r t.query with
  | none =>
    rw [mergeBlock_of_none hf, List.map_append, Tree.stylesAll_append]
    exact congrArg _ (add_zero _)
  | some u =>
    obtain ⟨before, after, hsplit, hmerge⟩ := mergeBlock_of_some hf
    obtain ⟨hu, hq⟩ := hr _ (Registry.mem_of_find? hf)
    rw [hmerge, hsplit]
    simp only [List.map_append, List.map_cons, Tree.stylesAll_append, stylesAll]
    rw [Tree.styles_extend hb hu ht hq]
    abel

theorem stylesAll_foldl_mergeBlock (hb : o.Blind) :
    ∀ {ts : List Tree} {r : Registry Tree}, IsMerged r → (∀ t ∈ ts, t.isMedia = true) →
      stylesAll o s ((ts.foldl mergeBlock r).map Prod.snd)
        = stylesAll o s (r.map Prod.snd) + stylesAll o s ts := by
  intro ts
  induction ts with
  | nil => exact fun _ _ => (add_zero _).symm
  | cons t ts ih =>
    intro r hr ht
    rw [List.forall_mem_cons] at ht
    rw [List.foldl_cons, ih (hr.mergeBlock ht.1) ht.2, stylesAll_mergeBlock hb hr ht.1, stylesAll,
      add_assoc]

/-- **The merged blocks of a scope** have the declarations of the blocks that leave it. -/
theorem stylesAll_emission (hb : o.Blind) (s : Conditions) (cs : List Tree) :
    stylesAll o s (emission o cs) = stylesAll o s (blocks o cs) := by
  have hfold := stylesAll_foldl_mergeBlock (s := s) hb (r := [])
    (List.forall_mem_nil _) fun t (ht : t ∈ blocks o cs) => isMedia_of_mem_blocks ht
  rw [emission, Tree.stylesAll_perm (sorted_perm (nodup_keys_merged _)), merged, hfold]
  exact zero_add _

theorem stylesAll_opened (hb : o.Blind) (hs : o.SparesStyles) (c : Tree) :
    stylesAll o s (opened o c) = c.styles o s := by
  rw [opened]
  split_ifs with hw
  · rw [Tree.stylesAll_append, stylesAll_emission hb, stylesAll_rest hb,
      Tree.styles_of_wrapper hs hw]
  · rw [stylesAll, stylesAll, add_zero]

theorem stylesAll_flatMap_opened (hb : o.Blind) (hs : o.SparesStyles) (cs : List Tree) :
    stylesAll o s (cs.flatMap (opened o)) = stylesAll o s cs := by
  induction cs with
  | nil => rfl
  | cons c cs ih =>
    rw [List.flatMap_cons, Tree.stylesAll_append, stylesAll_opened hb hs, ih, stylesAll]

/-- **Grouping keeps the conditions** of the declarations and comments below the root. -/
theorem stylesAll_groupedAll (hb : o.Blind) (hs : o.SparesStyles) (cs : List Tree) :
    stylesAll o s (groupedAll o cs) = stylesAll o s cs := by
  rw [groupedAll, Tree.stylesAll_dissolveAll hs, Tree.stylesAll_append,
    stylesAll_flatMap_opened hb hs, stylesAll_emission hb, stylesAll_rest hb]

/-- **Grouping keeps the conditions** of all declarations and comments. -/
theorem styles_grouped (hb : o.Blind) (hs : o.SparesStyles) (t : Tree) :
    (grouped o t).styles o s = t.styles o s := by
  obtain ⟨c, src, cs⟩ := t
  rw [grouped, Tree.withChildren, styles, styles, Tree.stylesAll_append,
    stylesAll_groupedAll hb hs, ← Tree.stylesAll_append]
  exact congrArg (_ + stylesAll o _ ·) (body_append cs)

/-- **A run that ends well keeps the conditions** of all declarations and comments of
a sheet: none is lost, none is doubled, and none applies elsewhere than before. -/
theorem transform_keeps_styles (hb : o.Blind) (hs : o.SparesStyles) {css : Text}
    (ht : Tree.parse css = .ok t) (f : Forest) :
    let run := transform o (f.plant t).2 (f.plant t).1
    run.failure = none →
      (run.forest.tree (f.plant t).1).styles o .none = t.styles o .none := by
  intro run hok
  have htree : run.forest.tree (f.plant t).1 = grouped o t := tree_of_transform ht hok
  rw [htree, styles_grouped hb hs]

/-- Blocks that are wrappers themselves lose no declaration either. -/
theorem transform_keeps_styles_media : ∃ t,
    Tree.parse "@media a{b{c:d}@media e{f{g:h}}}".toList = .ok t ∧
      let o : Options := { wrapper := Content.isAtRuleNamed mediaName }
      let run := transform o (Forest.empty.plant t).2 (Forest.empty.plant t).1
      run.failure = none ∧
        (run.forest.tree (Forest.empty.plant t).1).styles o .none = t.styles o .none := by
  let o : Options := { wrapper := Content.isAtRuleNamed mediaName }
  obtain ⟨t, ht, hok⟩ : ∃ t, Tree.parse "@media a{b{c:d}@media e{f{g:h}}}".toList = .ok t ∧
      (transform o (Forest.empty.plant t).2 (Forest.empty.plant t).1).failure = none :=
    ⟨_, rfl, by decide +kernel⟩
  exact ⟨t, ht, hok, transform_keeps_styles (.of_named rfl) (.of_named rfl) ht Forest.empty hok⟩

end Grouping
end
end MediaGrouping
