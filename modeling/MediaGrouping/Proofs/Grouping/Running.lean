/-
# Runs

A run sets the source map annotation aside, takes the blocks, and, unless it meets
a nested wrapper, puts the groups back, dissolves the wrappers and puts the
annotation back. On any sheet that stands in a forest it leaves `Grouping.grouped`
of the sheet, or the sheet without the blocks that left it before the nested
wrapper was met (`Forest.Stands.transform`).
-/

import MediaGrouping.Proofs.Grouping.Finishing
import MediaGrouping.Proofs.Grouping.Stages

namespace MediaGrouping

namespace Planted

variable {t c : Planted}

/-- The source map annotation at the end of a sheet. -/
def annotation? (t : Planted) : Option Planted :=
  t.children.getLast?.filter fun c => Grouping.isAnnotation c.content

/-- A sheet without the source map annotation at its end. -/
def bare (t : Planted) : Planted :=
  if t.annotation?.isSome then .node t.label t.children.dropLast else t

@[simp] theorem label_bare (t : Planted) : t.bare.label = t.label := by
  rw [bare]
  split <;> rfl

@[simp] theorem id_bare (t : Planted) : t.bare.id = t.id := by
  rw [id, id, label_bare]

theorem bare_of_none (h : t.annotation? = none) : t.bare = t := by
  rw [bare, h]
  rfl

theorem children_of_annotation (h : t.annotation? = some c) :
    t.children = t.bare.children ++ [c] := by
  have hl := (Option.filter_eq_some_iff.1 h).1
  rw [bare, h, Option.isSome_some, if_pos rfl, children_node]
  exact (List.dropLast_append_getLast? c hl).symm

theorem bare_of_annotation (hn : t.ids.Nodup) (h : t.annotation? = some c) :
    t.bare = t.prune (· == c.id) := by
  have hs := children_of_annotation h
  obtain ⟨-, hb, -⟩ := id_not_mem_of_split hn hs
  have hl : t.bare.label = t.label := t.label_bare
  generalize t.bare = b at *
  obtain ⟨l, cs⟩ := t
  obtain ⟨k, ds⟩ := b
  obtain rfl : k = l := hl
  obtain rfl : cs = ds ++ [c] := hs
  have hkept : ∀ n ∈ idsAll ds, (n == c.id) = false := fun n hm =>
    beq_eq_false_iff_ne.2 fun he => hb (he ▸ hm)
  rw [prune, pruneAll_eq, List.filter_append, List.map_append, ← pruneAll_eq,
    pruneAll_of_kept hkept, List.filter_cons_of_neg (by simp), List.filter_nil, List.map_nil,
    List.append_nil]

theorem annotationOf_tree (t : Planted) :
    Grouping.annotationOf t.tree.children = t.annotation?.map tree := by
  have hp : (fun c : Tree => Grouping.isAnnotation c.content) ∘ tree
      = fun c : Planted => Grouping.isAnnotation c.content :=
    funext fun d => congrArg Grouping.isAnnotation (content_tree d)
  rw [Grouping.annotationOf, annotation?, children_tree, trees_eq, List.getLast?_map,
    Option.filter_map, hp]

theorem tree_bare (t : Planted) :
    t.bare.tree = t.tree.withChildren (Grouping.body t.tree.children) := by
  rw [Grouping.body, annotationOf_tree, Option.isSome_map, bare]
  split_ifs
  · rw [tree, children_tree, trees_eq, trees_eq, List.map_dropLast]
    obtain ⟨l, cs⟩ := t
    rfl
  · rw [Tree.withChildren_children]

theorem withChildren_tree {u : Planted} (h : t.label = u.label) (ts : List Tree) :
    t.tree.withChildren ts = u.tree.withChildren ts := by
  obtain ⟨l, cs⟩ := t
  obtain ⟨k, ds⟩ := u
  obtain rfl : l = k := h
  rfl

end Planted

theorem Tree.Sheet.bare {t : Planted} (h : t.tree.Sheet) : t.bare.tree.Sheet := by
  rw [Planted.tree_bare]
  exact ⟨h.root, fun c hc => h.branches c (Grouping.mem_of_mem_body hc)⟩

namespace Forest.Stands

open Grouping (finished grouped mediaName transform)

variable {o : Options} {f : Forest} {t c : Planted} {e : NestedWrapper}

theorem annotation?_eq (h : f.Stands t) :
    Grouping.annotation? f t.id = t.annotation?.map Planted.id := by
  have hchildren : f.children t.id = t.children.map Planted.id := h.children (t.self_mem_sites [])
  rw [Grouping.annotation?, Planted.annotation?, hchildren, List.getLast?_map, Option.filter_map]
  cases hl : t.children.getLast? with
  | none => rfl
  | some c =>
    have hc := Planted.child_mem_sites (t.self_mem_sites []) (List.mem_of_getLast? hl)
    rw [Option.filter_some, Option.filter_some, Function.comp_apply,
      show f.holds Grouping.isAnnotation c.id = _ from h.holds hc Grouping.isAnnotation]

/-- **The annotation set aside** stands on its own. -/
theorem setAside (h : f.Stands t) : (Grouping.setAside f t.id).Stands t.bare ∧
    ∀ c, t.annotation? = some c → (Grouping.setAside f t.id).Stands c ∧ c.id ≠ t.id := by
  rw [Grouping.setAside, h.annotation?_eq]
  cases ha : t.annotation? with
  | none =>
    rw [Planted.bare_of_none ha]
    exact ⟨h, fun _ hc => by cases hc⟩
  | some c =>
    have hc : c ∈ t.children := by
      rw [Planted.children_of_annotation ha]
      exact List.mem_append_right _ List.mem_cons_self
    have hx : ⟨[t.label], c⟩ ∈ t.inner := Planted.mem_inner_iff.2
      ⟨Planted.child_mem_sites (t.self_mem_sites []) hc, List.cons_ne_nil _ _⟩
    obtain ⟨ht, hc, -⟩ := h.detach hx
    rw [Planted.bare_of_annotation h.nodup ha]
    refine ⟨ht, fun d hd => ?_⟩
    obtain rfl := Option.some.inj hd
    exact ⟨hc, (Planted.top_ne_inner h.nodup hx).symm⟩

/-- **The blocks of a sheet** are those of its sites, in pre-order. -/
theorem atRulesNamed (h : f.Stands t) (hc : t.Contained) :
    f.atRulesNamed mediaName t.id = (t.inner.filter Site.isMedia).map Site.id :=
  h.collect hc (Content.isAtRuleNamed mediaName)

/-- **The blocks of a sheet, taken** up to the first that ends the run. -/
theorem captured (h : f.Stands t) (o : Options) (ht : t.tree.Sheet) :
    ∃ done todo table, t.bare.inner.filter Site.isMedia = done ++ todo ∧
      Capturing o (Grouping.setAside f t.id) t.bare done todo
        (Grouping.captured o f t.id).1 table ∧
      (Mild o t.bare → ∀ x ∈ done, Scope.offence? o mediaName x.above = none) ∧
      match (Grouping.captured o f t.id).2 with
      | none => todo = []
      | some e => ∃ x rest, todo = x :: rest ∧ (Mild o t.bare → ∃ w,
          Scope.offence? o mediaName x.above = some w ∧ e = .ofLabel w) := by
  obtain ⟨h₀, -⟩ := h.setAside
  have hs : t.bare.tree.Sheet := ht.bare
  have hblocks := h₀.atRulesNamed hs.contained
  rw [Planted.id_bare] at hblocks
  have hrun := (Capturing.start (o := o) h₀).run h₀ hs.isSheet
  rw [Planted.id_bare, ← hblocks] at hrun
  obtain ⟨done, todo, table, hsplit, hcap, hnone, hend⟩ := hrun
  exact ⟨done, todo, table, hsplit, hcap, hnone, hend⟩

/-- **A run that ends well** leaves the grouped sheet, and has met no nested
wrapper. -/
theorem transform_of_none (h : f.Stands t) (ht : t.tree.Sheet)
    (hok : (transform o f t.id).failure = none) :
    (∃ t', (transform o f t.id).forest.Stands t' ∧ t'.id = t.id ∧ t'.tree = grouped o t.tree) ∧
      (Mild o t.bare → ∀ x ∈ t.bare.inner.filter Site.isMedia,
        Scope.offence? o mediaName x.above = none) := by
  obtain ⟨done, todo, table, hsplit, hcap, hnone, hend⟩ := h.captured o ht
  obtain ⟨hfail, hforest⟩ := Grouping.transform_eq o f t.id
  rw [hfail] at hok
  rw [hok] at hend hforest
  obtain rfl : todo = [] := hend
  rw [List.append_nil] at hsplit
  refine ⟨?_, hsplit ▸ hnone⟩
  obtain ⟨h₀, hann⟩ := h.setAside
  obtain ⟨all, -, -, h₁, hs₁, hd₁, hothers⟩ := hcap.emit h₀ ht.bare
  set t₁ := (t.bare.prune (gone o done)).restored o table all
  have hl₁ : t₁.label = t.bare.label := Planted.label_prune _ _
  have hid₁ : t₁.id = t.id := (congrArg Label.id hl₁).trans t.id_bare
  obtain ⟨t₂, h₂, hid₂, htree, hspares⟩ := h₁.unwrapWrappers o hs₁
  rw [hid₁] at h₂ hid₂ hspares
  have h₂ : (finished o t.id (Grouping.captured o f t.id).1).Stands t₂ := h₂
  rw [hd₁, Planted.withChildren_tree (hl₁.trans t.label_bare), Planted.tree_bare,
    Tree.children_withChildren] at htree
  rw [hforest, h.annotation?_eq, grouped, Planted.annotationOf_tree]
  cases ha : t.annotation? with
  | none =>
    refine ⟨t₂, h₂, hid₂, htree.trans (congrArg _ ?_)⟩
    exact (List.append_nil _).symm
  | some c =>
    obtain ⟨hc, hct⟩ := hann c ha
    have hc₁ := hothers c hc (t.id_bare ▸ hct)
    have hc₂ : (finished o t.id (Grouping.captured o f t.id).1).Stands c :=
      hspares.stands c hc₁ fun hm => hct (List.mem_singleton.1 hm)
    have hne : t₂.id ≠ c.id := hid₂ ▸ hct.symm
    obtain ⟨h₃, -⟩ := h₂.append_top hc₂ hne
    rw [hid₂] at h₃
    refine ⟨t₂.extend [c], h₃, (Planted.id_extend _ _).trans hid₂, ?_⟩
    have hroot : t.tree.content.withBlock = t.tree.content := by
      rw [ht.root]
      rfl
    rw [Planted.tree_extend, htree, Tree.extend]
    exact congrArg (Tree.node · _ _) hroot

/-- **A run that meets a nested wrapper** leaves the sheet without the blocks that
were taken before. -/
theorem transform_of_some (h : f.Stands t) (ht : t.tree.Sheet)
    (he : (transform o f t.id).failure = some e) :
    ∃ done x rest, t.bare.inner.filter Site.isMedia = done ++ x :: rest ∧
      (transform o f t.id).forest.Stands (t.bare.prune (gone o done)) ∧
      (Mild o t.bare → (∀ y ∈ done, Scope.offence? o mediaName y.above = none) ∧
        ∃ w, Scope.offence? o mediaName x.above = some w ∧ e = .ofLabel w) := by
  obtain ⟨done, todo, table, hsplit, hcap, hnone, hend⟩ := h.captured o ht
  obtain ⟨hfail, hforest⟩ := Grouping.transform_eq o f t.id
  rw [hfail] at he
  rw [he] at hend hforest
  obtain ⟨x, rest, rfl, hx⟩ := hend
  rw [hforest]
  exact ⟨done, x, rest, hsplit, hcap.live, fun hm => ⟨hnone hm, hx hm⟩⟩

end Forest.Stands
end MediaGrouping
