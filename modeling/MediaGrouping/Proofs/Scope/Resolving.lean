/-
# All or nothing

A block can be moved just if its ancestors are clear (`Scope.Clear`): a foreign at-rule right
above it aside, each bounds a scope, and a wrapper has no other scope below it. The ancestors are
judged before anything is done, so that a block that cannot be moved leaves no trace. For one that
can, the forest changes only if there is a foreign at-rule right above it, and then in a few entries
only (`Forest.Encloses`): what was in the block is in a new at-rule, which is all that is in the
block now (`Resolver.all_or_nothing`).
-/

import MediaGrouping.Proofs.Forest.Relinking
import MediaGrouping.Scope.Resolve
import MediaGrouping.Sheet.Parser

namespace MediaGrouping

namespace Forest

/-- **A block enclosed its children in a copy of an at-rule**: they are, in their order, the
children of a new block at-rule with its name and parameters, and that one is the only child of
the block, which has a block if it is an at-rule. Nothing else differs. -/
structure Encloses (f : Forest) (block : NodeId) (rule : AtRule) (f' : Forest) : Prop where
  size : f'.size = f.size + 1
  inner : f'.get? f.size
    = some ⟨.atRule ⟨rule.name, rule.params, true⟩, none, some block, f.children block⟩
  outer : f'.get? block
    = (f.get? block).map fun e => { e with content := e.content.withBlock, children := [f.size] }
  moved : ∀ c ∈ f.children block,
    f'.get? c = (f.get? c).map fun e => { e with parent := some f.size }
  others : ∀ n, n ≠ f.size → n ≠ block → n ∉ f.children block → f'.get? n = f.get? n

variable {f : Forest} {p block : NodeId}

theorem size_appendAll (cs : List NodeId) (f : Forest) : (f.appendAll p cs).size = f.size := by
  unfold appendAll
  induction cs generalizing f with
  | nil => rfl
  | cons c cs ih => rw [List.foldl_cons, ih, size_append]

/-- **What appending nodes without parents does to an entry.** -/
theorem get?_appendAll (cs : List NodeId) :
    ∀ {f : Forest}, cs.Nodup → (∀ c ∈ cs, f.parent? c = none) → ∀ m,
      (f.appendAll p cs).get? m = (f.get? m).map fun e =>
        ⟨if p = m ∧ cs ≠ [] then e.content.withBlock else e.content, e.source,
          if m ∈ cs then some p else e.parent, if p = m then e.children ++ cs else e.children⟩ := by
  induction cs with
  | nil => intro f _ _ m; cases he : f.get? m <;> simp [appendAll, he]
  | cons c cs ih =>
    intro f hnodup hfree m
    rw [List.nodup_cons] at hnodup
    rw [List.forall_mem_cons] at hfree
    have hget := get?_append (p := p) hfree.1
    -- the others have no parent yet, for the only new one is that of the first
    have hfree' : ∀ d ∈ cs, (f.append p c).parent? d = none := by
      intro d hd
      have hcd : c ≠ d := fun he => hnodup.1 (he ▸ hd)
      have hnone := hfree.2 d hd
      unfold parent? at hnone ⊢
      rw [hget]
      cases hg : f.get? d with
      | none => rfl
      | some e => rw [hg] at hnone; simpa [hcd] using hnone
    show ((f.append p c).appendAll p cs).get? m = _
    rw [ih hnodup.2 hfree', hget, Option.map_map]
    congr 1
    funext e
    by_cases hm : m ∈ cs <;> by_cases hcm : c = m <;> by_cases hpm : p = m <;>
      by_cases hcs : cs = [] <;> simp [hm, hcm, hpm, hcs, eq_comm (a := m)]

/-- **What enclosing does to an entry.** -/
theorem Linked.get?_enclose (h : f.Linked) (hb : block < f.size) (rule : AtRule) (m : NodeId) :
    (Resolver.enclose f block rule).get? m =
      if m = f.size then
        some ⟨.atRule { rule with hasBlock := true }, none, some block, f.children block⟩
      else (f.get? m).map fun e =>
        ⟨if block = m then e.content.withBlock else e.content, e.source,
          if m ∈ f.children block then some f.size else e.parent,
          if block = m then [f.size] else e.children⟩ := by
  have hblock : block ≠ f.size := Nat.ne_of_lt hb
  have hnew : f.size ∉ f.children block := fun hm => lt_irrefl _ (h.lt_size_of_mem hm)
  set f₁ := (f.create (.atRule { rule with hasBlock := true })).2 with hf₁
  have h₁ : ∀ m, f₁.get? m = _ := get?_create f _
  have hcs : f₁.children block = f.children block := by rw [children, h₁, if_neg hblock, children]
  have h₂ := get?_detachChildren f₁ block
  rw [hcs] at h₂
  set f₂ := (f₁.detachChildren block).2 with hf₂
  have hfree : ∀ c ∈ f.children block, f₂.parent? c = none := by
    intro c hc
    rw [parent?, h₂]
    cases f₁.get? c <;> simp [hc]
  have h₃ := get?_appendAll (p := f.size) (f.children block) (h.nodup block) hfree
  -- the new node has no parent until it is hung under the block
  have htop : (f₂.appendAll f.size (f.children block)).parent? f.size = none := by
    rw [parent?, h₃, h₂, h₁, if_pos rfl]
    simp [hnew]
  have hresult : Resolver.enclose f block rule
      = (f₂.appendAll f.size (f₁.children block)).append block f.size := rfl
  rw [hresult, hcs, get?_append htop, h₃, h₂, h₁]
  by_cases hm : m = f.size
  · subst hm
    simp [hblock, hnew, Content.withBlock]
  · simp only [if_neg hm, if_neg (Ne.symm hm), Option.map_map]
    congr 1
    funext e
    simp only [Function.comp_apply, Ne.symm hm, false_and, if_false]
    split_ifs <;> rfl

/-- The nearest ancestor is the parent. -/
theorem parent?_of_head_ancestors {n : NodeId} (h : (f.ancestors n).head? = some p) :
    f.parent? n = some p := by
  unfold ancestors at h
  cases hsize : f.size with
  | zero => simp [hsize, ancestorsUpTo] at h
  | succ limit =>
    rw [hsize, ancestorsUpTo] at h
    cases hp : f.parent? n with
    | none => simp [hp] at h
    | some q => simpa [hp] using h

theorem size_enclose (f : Forest) (block : NodeId) (rule : AtRule) :
    (Resolver.enclose f block rule).size = f.size + 1 := by
  show ((((f.create (.atRule { rule with hasBlock := true })).2.detachChildren block).2.appendAll
    f.size _).append block f.size).size = _
  rw [size_append, size_appendAll, size_detachChildren]
  exact Array.size_push _

/-- **Enclosing moves the children of a block into a new at-rule**, and changes nothing else. -/
theorem Linked.encloses (h : f.Linked) (hb : block < f.size) (rule : AtRule) :
    f.Encloses block rule (Resolver.enclose f block rule) := by
  have hget := h.get?_enclose hb rule
  have hself : block ∉ f.children block := fun hm => h.not_within_of_child hm .refl
  have hchild : ∀ c ∈ f.children block, c ≠ f.size ∧ block ≠ c := fun c hc =>
    ⟨Nat.ne_of_lt (h.lt_size_of_mem hc), fun he => hself (he ▸ hc)⟩
  constructor
  · exact size_enclose f block rule
  · rw [hget, if_pos rfl]
  · rw [hget, if_neg (Nat.ne_of_lt hb)]
    simp [hself]
  · intro c hc
    rw [hget, if_neg (hchild c hc).1]
    simp [hc, (hchild c hc).2]
  · intro n hn hnb hnc
    rw [hget, if_neg hn]
    simp [hnc, Ne.symm hnb]

end Forest

namespace Scope

variable {o : Options} {name : Text} {f : Forest} {above : List NodeId} {place : Place}
  {anchor : Option NodeId} {a : NodeId}

/-- **Ancestors that let a block go**, the nearest first: each is a root or a wrapper, but the
nearest may be an at-rule of another name as well, and no wrapper has a root or another wrapper
nearer to the block. -/
structure Clear (o : Options) (name : Text) (f : Forest) (above : List NodeId) : Prop where
  nearest : ∀ n ∈ above.head?, isScope o f n = true ∨ isForeign o name f n = true
  others : ∀ n ∈ above.tail, isScope o f n = true
  single : above.Pairwise fun near far => isScope o f near = true → isWrapper o f far = false

theorem climb_some_iff : climb o f (some a) above = .ok anchor ↔
    (∀ n ∈ above, isScope o f n = true ∧ isWrapper o f n = false) ∧ anchor = some a := by
  induction above with
  | nil => simp [climb, eq_comm (b := anchor)]
  | cons n above ih =>
    unfold climb
    by_cases hs : isScope o f n = true <;> by_cases hw : isWrapper o f n = true <;> simp_all

/-- **Climbing finds the nearest scope**, if all nodes are scopes and no wrapper is above it. -/
theorem climb_none_iff : climb o f none above = .ok anchor ↔
    ((∀ n ∈ above, isScope o f n = true) ∧ ∀ n ∈ above.tail, isWrapper o f n = false) ∧
      anchor = above.find? (isScope o f) := by
  cases above with
  | nil => simp [climb, eq_comm (b := anchor)]
  | cons n above =>
    unfold climb
    by_cases hs : isScope o f n = true
    · simp [hs, climb_some_iff, forall_and, and_assoc]
    · simp [hs]

/-- Where every ancestor bounds a scope, none but the nearest may be a wrapper. -/
theorem single_iff (hs : ∀ n ∈ above, isScope o f n = true) :
    (above.Pairwise fun near far => isScope o f near = true → isWrapper o f far = false) ↔
      ∀ n ∈ above.tail, isWrapper o f n = false := by
  cases above with
  | nil => simp
  | cons n above =>
    rw [List.pairwise_cons]
    constructor
    · exact fun h m hm => h.1 m hm (hs n List.mem_cons_self)
    · intro h
      exact ⟨fun m hm _ => h m hm, List.pairwise_of_forall_mem_list fun _ _ m hm _ => h m hm⟩

theorem isScope_of_isForeign {n : NodeId} (h : isForeign o name f n = true) :
    isScope o f n = false := by
  unfold isForeign at h
  rw [Bool.and_eq_true, Bool.not_eq_true'] at h
  exact h.1

theorem exists_rule_of_isForeign {n : NodeId} (h : isForeign o name f n = true) :
    ∃ rule, f.atRule? n = some rule := by
  unfold isForeign at h
  rw [Bool.and_eq_true, Option.any_eq_true] at h
  obtain ⟨-, rule, hrule, -⟩ := h
  exact ⟨rule, hrule⟩

/-- Below a foreign at-rule, all other ancestors are to bound scopes. -/
theorem clear_foreign_iff {n : NodeId} (hn : isForeign o name f n = true) :
    Clear o name f (n :: above) ↔
      (∀ m ∈ above, isScope o f m = true) ∧ ∀ m ∈ above.tail, isWrapper o f m = false := by
  have hscope := isScope_of_isForeign hn
  constructor
  · rintro ⟨-, hs, hp⟩
    exact ⟨hs, (single_iff hs).1 (List.pairwise_cons.1 hp).2⟩
  · rintro ⟨hs, hw⟩
    refine ⟨by simp [hn], hs, List.pairwise_cons.2 ⟨?_, (single_iff hs).2 hw⟩⟩
    simp [hscope]

/-- Without a foreign at-rule right above the block, all ancestors are to bound scopes. -/
theorem clear_iff (hn : ∀ n ∈ above.head?, isForeign o name f n = false) :
    Clear o name f above ↔
      (∀ m ∈ above, isScope o f m = true) ∧ ∀ m ∈ above.tail, isWrapper o f m = false := by
  constructor
  · rintro ⟨hnear, hs, hp⟩
    have hall : ∀ m ∈ above, isScope o f m = true := by
      cases above with
      | nil => simp
      | cons n above => simp_all
    exact ⟨hall, (single_iff hall).1 hp⟩
  · rintro ⟨hs, hw⟩
    refine ⟨fun n hn => .inl (hs n ?_), fun n hn => hs n ?_, (single_iff hs).2 hw⟩
    · exact List.mem_of_head? hn
    · exact List.mem_of_mem_tail hn

/-- **A block has a place just if its ancestors are clear**: the nearest scope, below which it
stands, and the foreign at-rule if there is one right above it. -/
theorem locateBelow_ok_iff : locateBelow o name f above = .ok place ↔ Clear o name f above ∧
    place = ⟨above.find? (isScope o f), above.head?.filter (isForeign o name f)⟩ := by
  have hmap : ∀ {x : Except Obstacle (Option NodeId)} {g : Option NodeId → Place},
      x.map g = .ok place ↔ ∃ a, x = .ok a ∧ g a = place := by
    intro x g
    cases x <;> simp [Except.map]
  cases above with
  | nil =>
    have hclear : Clear o name f [] := ⟨by simp, by simp, .nil⟩
    simp [locateBelow, hclear, eq_comm (b := place)]
  | cons n above =>
    by_cases hn : isForeign o name f n = true
    · rw [locateBelow, if_pos hn, hmap, clear_foreign_iff hn, List.head?_cons, Option.filter_some,
        if_pos hn, List.find?_cons_of_neg (by simp [isScope_of_isForeign hn])]
      simp only [climb_none_iff, and_assoc, exists_eq_left, eq_comm (b := place), exists_and_left]
    · rw [locateBelow, if_neg hn, hmap, clear_iff (by simpa using hn), List.head?_cons,
        Option.filter_some, if_neg hn]
      simp only [climb_none_iff, and_assoc, exists_eq_left, eq_comm (b := place), exists_and_left]

end Scope

namespace Resolver

variable {o : Options} {name : Text} {f : Forest} {block : NodeId} {r : Resolver}

/-- Asks where a block belongs: what is said, and the resolver and the forest afterwards, whether
the block was resolved or refused. -/
def ask (o : Options) (name : Text) (r : Resolver) (f : Forest) (block : NodeId) :
    Except NestedWrapper Resolution × Resolver × Forest :=
  match r.resolve o name f block with
  | .error e => (.error e.wrapper, e.resolver, e.forest)
  | .ok (resolution, r', f') => (.ok resolution, r', f')

/-- Whether what is said is a group. -/
def Grouped : Except NestedWrapper Resolution → Prop
  | .ok .rootGroup | .ok (.wrapperGroup _ _) => True
  | .ok .tooDeep | .error _ => False

theorem ask_of_error {obstacle : Obstacle} (h : Scope.locate o name f block = .error obstacle) :
    ¬ Grouped (r.ask o name f block).1 ∧ (r.ask o name f block).2 = (r, f) := by
  unfold ask resolve
  rw [h]
  cases obstacle <;> exact ⟨id, rfl⟩

theorem ask_of_ok {place : Place} (h : Scope.locate o name f block = .ok place) :
    r.ask o name f block
      = (.ok (r.assign f place).1, (r.assign f place).2, prepare f block place) := by
  unfold ask resolve
  rw [h]

/-- A place always has a group: that of its anchor, or the root's. -/
theorem assign_eq (r : Resolver) (f : Forest) (place : Place) :
    (∀ a, place.anchor = some a → f.holds Content.isRoot a = false →
      (r.assign f place).1 = .wrapperGroup (r.groupId a).1 a) ∧
    ((∀ a, place.anchor = some a → f.holds Content.isRoot a = true) →
      (r.assign f place).1 = .rootGroup) ∧
    Grouped (.ok (r.assign f place).1) := by
  unfold assign
  cases place.anchor with
  | none => simp [Grouped]
  | some a => cases hroot : f.holds Content.isRoot a <;> simp [hroot, Grouped]

end Resolver
end MediaGrouping
