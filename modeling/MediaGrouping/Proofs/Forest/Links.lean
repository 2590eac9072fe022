/-
# Links of a forest

In a linked forest a node names another as its parent just if it is one of its
children, once, and no node is below itself (`Forest.Linked`). Nodes are moved by
taking them out (`Linked.detach`, `Linked.detachChildren`), by hanging a node under
another that is not below it (`Linked.append`, `Linked.insert`), and by planting
trees (`Linked.plant`); every other operation is made of these. Each lemma says that
the forest stays linked, and which parents it may have that it did not have before
(`Forest.Relinked`), from which it follows where a node can have come to be.
-/

import MediaGrouping.Proofs.Forest.Unwrapping
import Mathlib.Logic.Relation

namespace MediaGrouping

/-- The entry of a node once some nodes have been taken out. -/
def Entry.without (gone : List NodeId) (n : NodeId) (e : Entry) : Entry :=
  { e with
    parent := if n ∈ gone then none else e.parent
    children := e.children.filter (· ∉ gone) }

theorem filter_notMem_filter (gone more l : List NodeId) :
    (l.filter (· ∉ gone)).filter (· ∉ more) = l.filter (· ∉ gone ++ more) := by
  simp only [List.filter_filter, List.mem_append, not_or, Bool.decide_and]
  exact List.filter_congr fun _ _ => Bool.and_comm _ _

theorem Entry.without_without (gone more : List NodeId) (n : NodeId) (e : Entry) :
    (e.without gone n).without more n = e.without (gone ++ more) n := by
  simp only [without, filter_notMem_filter, List.mem_append]
  congr 1
  split_ifs <;> simp_all

namespace Forest

open Relation (ReflTransGen TransGen)

/-- Whether a node names another as its parent. -/
def Under (f : Forest) (n p : NodeId) : Prop := f.parent? n = some p

/-- Whether a node is another one or below it. -/
def Within (f : Forest) (n top : NodeId) : Prop := ReflTransGen f.Under n top

/-- **A linked forest**: a node names another as its parent just if it is one of its
children, it is so only once, and no node is its own ancestor. -/
structure Linked (f : Forest) : Prop where
  parent_iff : ∀ {n p}, f.parent? n = some p ↔ n ∈ f.children p
  nodup : ∀ p, (f.children p).Nodup
  acyclic : ∀ n, ¬ TransGen f.Under n n

/-- A linked forest with the nodes of another, in which a node names the same parent as
there, if it names one, or one that `r` allows. -/
structure Relinked (f f' : Forest) (r : NodeId → NodeId → Prop) : Prop where
  linked : f'.Linked
  size_le : f.size ≤ f'.size
  parent : ∀ {n p}, f'.parent? n = some p → f.parent? n = some p ∨ r n p

variable {f f' f'' : Forest} {r r' : NodeId → NodeId → Prop} {n m p q c : NodeId} {t : Tree}

theorem exists_get? (h : n < f.size) : ∃ e, f.get? n = some e :=
  ⟨_, Array.getElem?_eq_getElem h⟩

theorem lt_size_of_parent? (h : f.parent? n = some p) : n < f.size := by
  obtain ⟨e, he, -⟩ := exists_entry_of_parent? h
  exact lt_size_of_get? he

theorem lt_size_of_mem_children (h : n ∈ f.children p) : p < f.size := by
  obtain ⟨e, he, -⟩ := exists_entry_of_children rfl (List.ne_nil_of_mem h)
  exact lt_size_of_get? he

theorem children_eq_nil (h : f.size ≤ n) : f.children n = [] := by
  rw [children, get?, Array.getElem?_eq_none h]

/-- The parent of a node whose entry was changed. -/
theorem parent?_of_map {change : Entry → Entry} {g : Option NodeId → Option NodeId}
    (h : f'.get? n = (f.get? n).map change) (hg : ∀ e, (change e).parent = g e.parent)
    (hn : n < f.size ∨ g none = none) : f'.parent? n = g (f.parent? n) := by
  rw [parent?, h, parent?]
  cases he : f.get? n with
  | some e => exact hg e
  | none =>
    refine (hn.resolve_left fun hlt => ?_).symm
    obtain ⟨e, hsome⟩ := exists_get? hlt
    rw [he] at hsome
    cases hsome

/-- The children of a node whose entry was changed. -/
theorem children_of_map {change : Entry → Entry} {g : List NodeId → List NodeId}
    (h : f'.get? n = (f.get? n).map change) (hg : ∀ e, (change e).children = g e.children)
    (hn : n < f.size ∨ g [] = []) : f'.children n = g (f.children n) := by
  rw [children, h, children]
  cases he : f.get? n with
  | some e => exact hg e
  | none =>
    refine (hn.resolve_left fun hlt => ?_).symm
    obtain ⟨e, hsome⟩ := exists_get? hlt
    rw [he] at hsome
    cases hsome

/-- The ancestors of a node are reached by its links. -/
theorem within_of_mem_ancestorsUpTo (limit : Nat) :
    ∀ {n}, m ∈ f.ancestorsUpTo limit n → f.Within n m := by
  induction limit with
  | zero => exact fun h => absurd h List.not_mem_nil
  | succ limit ih =>
    intro n h
    rw [ancestorsUpTo] at h
    split at h
    · cases h
    · next p hp =>
      rcases List.mem_cons.1 h with rfl | h
      · exact .single hp
      · exact .head hp (ih h)

/-- A node without a parent is only within itself. -/
theorem eq_of_within (hn : f.parent? n = none) (h : f.Within n m) : n = m := by
  rcases h.cases_head with rfl | ⟨p, hp, -⟩
  · rfl
  · rw [show f.parent? n = some p from hp] at hn
    cases hn

/-- A link more makes no circle, unless it leads back to where it comes from. -/
theorem acyclic_of_parent (h : ∀ n, ¬ TransGen f.Under n n) (hp : ¬ f.Within p c)
    (hparent : ∀ {n q}, f'.parent? n = some q → f.parent? n = some q ∨ n = c ∧ q = p) :
    ∀ n, ¬ TransGen f'.Under n n := by
  have key : ∀ {n q}, TransGen f'.Under n q →
      TransGen f.Under n q ∨ f.Within n c ∧ f.Within p q := by
    intro n q hnq
    induction hnq with
    | single hl =>
      rcases hparent hl with hl | ⟨rfl, rfl⟩
      · exact .inl (.single hl)
      · exact .inr ⟨.refl, .refl⟩
    | tail _ hl ih =>
      rcases ih with ih | ⟨hnc, hpq⟩ <;> rcases hparent hl with hl | ⟨rfl, rfl⟩
      · exact .inl (ih.tail hl)
      · exact .inr ⟨ih.to_reflTransGen, .refl⟩
      · exact .inr ⟨hnc, hpq.tail hl⟩
      · exact absurd hpq hp
  intro n hn
  rcases key hn with hn | ⟨hnc, hpn⟩
  · exact h n hn
  · exact hp (hpn.trans hnc)

/-- The forest without nodes is linked. -/
theorem linked_empty : empty.Linked where
  parent_iff := iff_of_false nofun List.not_mem_nil
  nodup _ := List.nodup_nil
  acyclic _ hn := by
    obtain ⟨p, hp, -⟩ := TransGen.head'_iff.1 hn
    cases hp

/-! ### Planted trees -/

/-- A number of a forest with a planted tree is an old one, or one of the tree. -/
theorem exists_site_of_lt (hn : f.size ≤ n) (hlt : n < (f.plant t).2.size) :
    ∃ x ∈ (t.planted f.size).sites [], x.id = n := by
  refine Planted.exists_site ?_ []
  rw [size_plant] at hlt
  rw [Tree.ids_planted, List.mem_range'_1]
  exact ⟨hn, hlt⟩

theorem size_le_of_site {x : Site} (hx : x ∈ (t.planted f.size).sites []) : f.size ≤ x.id := by
  have hid := Planted.id_mem_ids hx
  rw [Tree.ids_planted, List.mem_range'_1] at hid
  exact hid.1

/-- Links of old nodes stay as they were. -/
theorem parent?_plant_of_lt (hn : n < f.size) : (f.plant t).2.parent? n = f.parent? n := by
  rw [parent?, get?_plant t hn, parent?]

theorem children_plant_of_lt (hn : n < f.size) : (f.plant t).2.children n = f.children n := by
  rw [children, get?_plant t hn, children]

/-- The parent of a node of a planted tree is the node above it there. -/
theorem exists_above_of_plant {x : Site} (hx : x ∈ (t.planted f.size).sites [])
    (hp : (f.plant t).2.parent? x.id = some p) : ∃ q ∈ (t.planted f.size).sites [],
      q.id = p ∧ x.above = q.here.label :: q.above ∧ x.here ∈ q.here.children := by
  have hs := stands_plant f t
  rcases Planted.exists_parent hx with rfl | ⟨q, hq, ha, hc⟩
  · rw [hs.parent? hx] at hp
    cases hp
  · rw [hs.parent? hx, ha] at hp
    exact ⟨q, hq, Option.some.inj hp, ha, hc⟩

/-- Along the links of a planted tree there are fewer and fewer labels above. -/
theorem exists_above_lt_of_plant {x : Site} (hx : x ∈ (t.planted f.size).sites [])
    (hm : TransGen (f.plant t).2.Under x.id m) :
    ∃ y ∈ (t.planted f.size).sites [], y.id = m ∧ y.above.length < x.above.length := by
  induction hm with
  | single hl =>
    obtain ⟨y, hy, rfl, ha, -⟩ := exists_above_of_plant hx hl
    exact ⟨y, hy, rfl, by rw [ha, List.length_cons]; omega⟩
  | tail _ hl ih =>
    obtain ⟨z, hz, rfl, hlen⟩ := ih
    obtain ⟨y, hy, rfl, ha, -⟩ := exists_above_of_plant hz hl
    rw [ha, List.length_cons] at hlen
    exact ⟨y, hy, rfl, by omega⟩

/-- A parent of a node in a forest with a planted tree is as new as the node. -/
theorem parent_plant (hp : (f.plant t).2.parent? n = some p) :
    f.parent? n = some p ∨ f.size ≤ n ∧ f.size ≤ p := by
  rcases lt_or_ge n f.size with hn | hn
  · rw [parent?_plant_of_lt hn] at hp
    exact .inl hp
  · obtain ⟨x, hx, rfl⟩ := exists_site_of_lt hn (lt_size_of_parent? hp)
    obtain ⟨q, hq, rfl, -⟩ := exists_above_of_plant hx hp
    exact .inr ⟨hn, size_le_of_site hq⟩

namespace Relinked

theorem mono (h : Relinked f f' r) (hm : ∀ {n p}, r n p → r' n p) : Relinked f f' r' :=
  ⟨h.linked, h.size_le, fun hp => (h.parent hp).imp_right hm⟩

theorem trans (h : Relinked f f' r) (h' : Relinked f' f'' r) : Relinked f f'' r :=
  ⟨h'.linked, h.size_le.trans h'.size_le, fun hp =>
    (h'.parent hp).elim (fun hp => h.parent hp) .inr⟩

/-- **Nothing new is found above a node** that nothing new hangs above of. -/
theorem within (h : Relinked f f' r) (hno : ∀ x y, r x y → ¬ f.Within n x)
    (hw : f'.Within n m) : f.Within n m := by
  induction hw with
  | refl => exact .refl
  | tail _ hl ih =>
    rcases h.parent hl with hl | hl
    · exact ih.tail hl
    · exact absurd ih (hno _ _ hl)

end Relinked

namespace Linked

theorem refl (h : f.Linked) : Relinked f f r := ⟨h, le_rfl, .inl⟩

/-- A node is the child of no more than one node. -/
theorem eq_of_mem_children (h : f.Linked) (hp : n ∈ f.children p) (hq : n ∈ f.children q) :
    p = q := by
  rw [← h.parent_iff] at hp hq
  exact Option.some.inj (hp.symm.trans hq)

/-- A child does not have its parent below it. -/
theorem not_within_of_child (h : f.Linked) (hc : c ∈ f.children p) : ¬ f.Within p c := by
  intro hw
  exact h.acyclic c (TransGen.head' (h.parent_iff.2 hc) hw)

/-! ### Taking out -/

/-- Some nodes lose their parent, and are no longer found among its children. -/
theorem cut (h : f.Linked) (gone : NodeId → Prop) (hsize : f'.size = f.size)
    (hparent : ∀ {n p}, f'.parent? n = some p ↔ f.parent? n = some p ∧ ¬ gone n)
    (hmem : ∀ {n p}, n ∈ f'.children p ↔ n ∈ f.children p ∧ ¬ gone n)
    (hsub : ∀ p, (f'.children p).Sublist (f.children p)) :
    Relinked f f' r ∧ ∀ n, gone n → f'.parent? n = none := by
  refine ⟨⟨⟨fun {n p} => ?_, fun p => (h.nodup p).sublist (hsub p), fun n hn => ?_⟩, hsize.ge,
    fun hp => .inl (hparent.1 hp).1⟩, fun n hn => ?_⟩
  · rw [hparent, hmem, h.parent_iff]
  · exact h.acyclic n (TransGen.mono (r := f'.Under) (p := f.Under)
      (fun _ _ hl => (hparent.1 hl).1) n n hn)
  · exact Option.eq_none_iff_forall_ne_some.2 fun p hp => (hparent.1 hp).2 hn

/-- **Taking out a node only removes the link to its parent.** -/
theorem detach (h : f.Linked) (n : NodeId) :
    Relinked f (f.detach n) r ∧ (f.detach n).parent? n = none := by
  cases hp : f.parent? n with
  | none =>
    rw [detach_of_parent?_eq_none hp]
    exact ⟨h.refl, hp⟩
  | some p =>
    have hn : n ∈ f.children p := h.parent_iff.1 hp
    have hparent : ∀ m, (f.detach n).parent? m = if n = m then none else f.parent? m :=
      fun m => parent?_of_map (g := fun o => if n = m then none else o) (get?_detach hp hn m)
        (fun _ => rfl) (.inr (ite_self none))
    have hchildren : ∀ q, (f.detach n).children q =
        if p = q then (f.children q).erase n else f.children q :=
      fun q => children_of_map (g := fun l => if p = q then l.erase n else l)
        (get?_detach hp hn q) (fun _ => rfl) (.inr (ite_self []))
    have hcut : Relinked f (f.detach n) r ∧ ∀ m, m = n → (f.detach n).parent? m = none := by
      refine h.cut (· = n) (size_detach f n) (fun {m q} => ?_) (fun {m q} => ?_) fun q => ?_
      · rw [hparent]
        by_cases hm : n = m
        · simp [hm]
        · simp [hm, Ne.symm hm]
      · rw [hchildren]
        split_ifs with hq
        · rw [(h.nodup q).mem_erase_iff, and_comm]
        · refine (and_iff_left_of_imp fun hm he => hq ?_).symm
          exact h.eq_of_mem_children hn (he ▸ hm)
      · rw [hchildren]
        split_ifs
        · exact List.erase_sublist
        · exact .refl _
    exact ⟨hcut.1, hcut.2 n rfl⟩

/-- **Taking a node out** takes it from its parent, and its parent from it. -/
theorem get?_detach (h : f.Linked) (n m : NodeId) :
    (f.detach n).get? m = (f.get? m).map (Entry.without [n] m) := by
  cases he : f.get? m with
  | none =>
    have hsize : ¬ m < (f.detach n).size := fun hm => by
      obtain ⟨e, hsome⟩ := exists_get? ((size_detach f n) ▸ hm)
      rw [he] at hsome
      cases hsome
    exact Array.getElem?_eq_none (Nat.le_of_not_lt hsize)
  | some e =>
    have hch : f.children m = e.children := children_of_get? he
    have hpa : f.parent? m = e.parent := by rw [parent?, he]; rfl
    have hnot : ∀ {p}, f.parent? n = p → p ≠ some m → e.children.filter (· ∉ [n]) = e.children :=
      fun hp hne => List.filter_eq_self.2 fun c hc => by
        have hcn : c ≠ n := fun hcn => hne (hp ▸ h.parent_iff.2 (hch ▸ hcn ▸ hc))
        simpa using hcn
    cases hp : f.parent? n with
    | none =>
      rw [detach_of_parent?_eq_none hp, he, Option.map_some, Entry.without,
        hnot hp (Option.some_ne_none m).symm]
      by_cases hmn : m = n
      · subst hmn
        rw [hp] at hpa
        rw [if_pos List.mem_cons_self, hpa]
      · rw [if_neg (by simpa using hmn)]
    | some p =>
      have hn := h.parent_iff.1 hp
      have hif : (if n = m then none else e.parent) = if m ∈ [n] then none else e.parent := by
        simp only [List.mem_singleton, eq_comm]
      rw [Forest.get?_detach hp hn, he, Option.map_some, Option.map_some, Entry.without, hif]
      by_cases hpm : p = m
      · have hnd : e.children.Nodup := hch ▸ h.nodup m
        rw [if_pos hpm, hnd.erase_eq_filter]
        simp only [List.mem_singleton, bne, decide_not, beq_eq_decide]
      · rw [if_neg hpm, hnot hp fun he => hpm (Option.some.inj he)]

theorem children_detach (h : f.Linked) (n p : NodeId) :
    (f.detach n).children p = (f.children p).filter (· ∉ [n]) :=
  children_of_map (g := fun l => l.filter (· ∉ [n])) (h.get?_detach n p) (fun _ => rfl) (.inr rfl)

/-- **Taking out all children only removes their links to their parent.** -/
theorem detachChildren (h : f.Linked) (n : NodeId) :
    Relinked f (f.detachChildren n).2 r ∧
      ∀ c ∈ f.children n, (f.detachChildren n).2.parent? c = none := by
  have hparent : ∀ m, (f.detachChildren n).2.parent? m =
      if m ∈ f.children n then none else f.parent? m :=
    fun m => parent?_of_map (g := fun o => if m ∈ f.children n then none else o)
      (get?_detachChildren f n m) (fun _ => rfl) (.inr (ite_self none))
  have hchildren : ∀ q, (f.detachChildren n).2.children q =
      if n = q then [] else f.children q :=
    fun q => children_of_map (g := fun l => if n = q then [] else l)
      (get?_detachChildren f n q) (fun _ => rfl) (.inr (ite_self []))
  refine h.cut (· ∈ f.children n) (size_detachChildren f n) (fun {m q} => ?_) (fun {m q} => ?_)
    fun q => ?_
  · rw [hparent]
    by_cases hm : m ∈ f.children n <;> simp [hm]
  · rw [hchildren]
    split_ifs with hq
    · exact iff_of_false List.not_mem_nil fun hm => hm.2 (hq ▸ hm.1)
    · exact (and_iff_left_of_imp fun hm hc => hq (h.eq_of_mem_children hc hm)).symm
  · rw [hchildren]
    split_ifs
    · exact List.nil_sublist _
    · exact .refl _

/-! ### Hanging a node under another -/

/-- **A node without a parent gets one that is not within it**, and a place among its
children. -/
theorem link (h : f.Linked) (hfree : f.parent? c = none) (hw : ¬ f.Within p c)
    {place : List NodeId → List NodeId} (hplace : ∀ l, (place l).Perm (c :: l))
    (hparent : ∀ m, f'.parent? m = if c = m then some p else f.parent? m)
    (hchildren : ∀ q, f'.children q = if p = q then place (f.children q) else f.children q)
    (hsize : f'.size = f.size) : Relinked f f' fun n q => n = c ∧ q = p := by
  have hnot : ∀ q, c ∉ f.children q := fun q hq => by
    rw [← h.parent_iff, hfree] at hq
    cases hq
  have hlink : ∀ {n q}, f'.parent? n = some q → f.parent? n = some q ∨ n = c ∧ q = p := by
    intro n q hq
    rw [hparent] at hq
    split_ifs at hq with hn
    · exact .inr ⟨hn.symm, (Option.some.inj hq).symm⟩
    · exact .inl hq
  refine ⟨⟨fun {n q} => ?_, fun q => ?_, acyclic_of_parent h.acyclic hw hlink⟩, hsize.ge, hlink⟩
  · rw [hparent, hchildren]
    by_cases hn : c = n
    · subst hn
      rw [if_pos rfl]
      split_ifs with hq
      · exact iff_of_true (congrArg some hq) ((hplace _).mem_iff.2 List.mem_cons_self)
      · exact iff_of_false (fun he => hq (Option.some.inj he)) (hnot q)
    · rw [if_neg hn, h.parent_iff]
      split_ifs
      · rw [(hplace _).mem_iff, List.mem_cons, or_iff_right (Ne.symm hn)]
      · exact Iff.rfl
  · rw [hchildren]
    split_ifs
    · exact (hplace _).nodup_iff.2 (List.nodup_cons.2 ⟨hnot q, h.nodup q⟩)
    · exact h.nodup q

/-- The same for the entries of both nodes: one names its parent, the other its child. -/
theorem attach (h : f.Linked) (hp : p < f.size) (hc : c < f.size) (hfree : f.parent? c = none)
    (hw : ¬ f.Within p c) {g : Content → Content} {place : List NodeId → List NodeId}
    (hplace : ∀ l, (place l).Perm (c :: l))
    (hget : ∀ m, f'.get? m = (f.get? m).map fun e =>
      ⟨if p = m then g e.content else e.content, e.source,
        if c = m then some p else e.parent, if p = m then place e.children else e.children⟩)
    (hsize : f'.size = f.size) : Relinked f f' fun n q => n = c ∧ q = p := by
  refine h.link hfree hw hplace (fun m => ?_) (fun q => ?_) hsize
  · refine parent?_of_map (g := fun o => if c = m then some p else o) (hget m) (fun _ => rfl) ?_
    by_cases hm : c = m
    · exact .inl (hm ▸ hc)
    · exact .inr (if_neg hm)
  · refine children_of_map (g := fun l => if p = q then place l else l) (hget q) (fun _ => rfl) ?_
    by_cases hq : p = q
    · exact .inl (hq ▸ hp)
    · exact .inr (if_neg hq)

/-- **A node is appended to one that is not within it.** -/
theorem append (h : f.Linked) (hp : p < f.size) (hc : c < f.size) (hw : ¬ f.Within p c) :
    Relinked f (f.append p c) fun n q => n = c ∧ q = p := by
  obtain ⟨hd, hfree⟩ := h.detach (r := fun n q => n = c ∧ q = p) c
  have hsame : f.append p c = (f.detach c).append p c := by
    rw [Forest.append, Forest.append, detach_of_parent?_eq_none hfree]
  rw [← size_detach f c] at hp hc
  refine hd.trans (hsame ▸ hd.linked.attach hp hc hfree (fun hw' => hw (hd.within ?_ hw'))
    (fun l => List.perm_append_singleton c l) (get?_append hfree) (size_append _ p c))
  rintro _ _ ⟨rfl, rfl⟩
  exact hw

/-- **A node is inserted into one that is not within it.** -/
theorem insert (h : f.Linked) (hp : p < f.size) (hc : c < f.size) (hw : ¬ f.Within p c)
    (index : Nat) : Relinked f (f.insert p index c) fun n q => n = c ∧ q = p := by
  obtain ⟨hd, hfree⟩ := h.detach (r := fun n q => n = c ∧ q = p) c
  have hsame : f.insert p index c = (f.detach c).insert p index c := by
    rw [Forest.insert, Forest.insert, detach_of_parent?_eq_none hfree]
  have hsize : ((f.detach c).insert p index c).size = (f.detach c).size := by
    simp only [Forest.insert, setParent, size_modify, size_detach]
  have hplace : ∀ l : List NodeId, (l.take index ++ c :: l.drop index).Perm (c :: l) := by
    intro l
    have hperm : (l.take index ++ c :: l.drop index).Perm (c :: (l.take index ++ l.drop index)) :=
      List.perm_middle
    rwa [List.take_append_drop] at hperm
  rw [← size_detach f c] at hp hc
  refine hd.trans (hsame ▸ hd.linked.attach (g := id) hp hc hfree (fun hw' => hw (hd.within ?_ hw'))
    hplace (fun m => (get?_insert hfree index m).trans ?_) hsize)
  · rintro _ _ ⟨rfl, rfl⟩
    exact hw
  · simp only [id, ite_self]

/-! ### Planting -/

theorem lt_size_of_parent (h : f.Linked) (hp : f.parent? n = some p) : p < f.size :=
  lt_size_of_mem_children (h.parent_iff.1 hp)

theorem parent_iff_plant (h : f.Linked) :
    (f.plant t).2.parent? n = some p ↔ n ∈ (f.plant t).2.children p := by
  have hs := stands_plant f t
  constructor
  · intro hp
    rcases lt_or_ge n f.size with hn | hn
    · rw [parent?_plant_of_lt hn] at hp
      rw [children_plant_of_lt (h.lt_size_of_parent hp)]
      exact h.parent_iff.1 hp
    · obtain ⟨x, hx, rfl⟩ := exists_site_of_lt hn (lt_size_of_parent? hp)
      obtain ⟨q, hq, rfl, -, hc⟩ := exists_above_of_plant hx hp
      rw [hs.children hq]
      exact List.mem_map_of_mem hc
  · intro hn
    rcases lt_or_ge p f.size with hp | hp
    · rw [children_plant_of_lt hp, ← h.parent_iff] at hn
      rwa [parent?_plant_of_lt (lt_size_of_parent? hn)]
    · obtain ⟨q, hq, rfl⟩ := exists_site_of_lt hp (lt_size_of_mem_children hn)
      rw [hs.children hq, List.mem_map] at hn
      obtain ⟨c, hc, rfl⟩ := hn
      exact hs.parent? (Planted.child_mem_sites hq hc)

theorem nodup_plant (h : f.Linked) (p : NodeId) : ((f.plant t).2.children p).Nodup := by
  have hs := stands_plant f t
  rcases lt_or_ge p f.size with hp | hp
  · rw [children_plant_of_lt hp]
    exact h.nodup p
  · rcases lt_or_ge p (f.plant t).2.size with hlt | hge
    · obtain ⟨q, hq, rfl⟩ := exists_site_of_lt hp hlt
      rw [hs.children hq]
      exact Planted.children_nodup hs.nodup hq
    · rw [children_eq_nil hge]
      exact List.nodup_nil

/-- Above an old node there are old nodes only. -/
theorem above_old_of_plant (h : f.Linked) (hn : n < f.size)
    (hm : TransGen (f.plant t).2.Under n m) : TransGen f.Under n m ∧ m < f.size := by
  induction hm with
  | single hl =>
    have hl' : f.parent? n = some _ := (parent?_plant_of_lt hn).symm.trans hl
    exact ⟨.single hl', h.lt_size_of_parent hl'⟩
  | tail _ hl ih =>
    have hl' : f.parent? _ = some _ := (parent?_plant_of_lt ih.2).symm.trans hl
    exact ⟨ih.1.tail hl', h.lt_size_of_parent hl'⟩

theorem acyclic_plant (h : f.Linked) (n : NodeId) : ¬ TransGen (f.plant t).2.Under n n := by
  intro hc
  rcases lt_or_ge n f.size with hn | hn
  · exact h.acyclic n (h.above_old_of_plant hn hc).1
  · obtain ⟨p, hp, -⟩ := TransGen.head'_iff.1 hc
    obtain ⟨x, hx, rfl⟩ := exists_site_of_lt hn (lt_size_of_parent? hp)
    obtain ⟨y, hy, hid, hlen⟩ := exists_above_lt_of_plant hx hc
    obtain rfl := Planted.eq_of_id_eq (stands_plant f t).nodup hy hx hid
    exact lt_irrefl _ hlen

/-- **A tree that is planted is linked in itself, and with nothing else.** -/
theorem plant (h : f.Linked) (t : Tree) :
    Relinked f (f.plant t).2 (fun n p => f.size ≤ n ∧ f.size ≤ p) ∧
      (f.plant t).2.parent? (f.plant t).1 = none ∧ (f.plant t).1 < (f.plant t).2.size := by
  refine ⟨⟨⟨h.parent_iff_plant, h.nodup_plant, h.acyclic_plant⟩, (spares_plant f t).size_le,
    parent_plant⟩, ?_, ?_⟩
  · have htop := (stands_plant f t).parent?_top
    rwa [Tree.id_planted] at htop
  · have hlt := (stands_plant f t).lt_size (Planted.id_mem_ids (Planted.self_mem_sites [] _))
    rwa [Site.id, Tree.id_planted] at hlt

end Linked
end Forest
end MediaGrouping
