/-
# Forests inside forests

A forest mirrors another one under an injective numbering, and has the entries of a third
for all numbers that the numbering does not use (`Forest.Mirrors`). The numbers that are
not in use yet correspond to each other in their order, so that nodes made in both go on
corresponding. What is read of a node is then the same in both (`Mirrors.content?`,
`Mirrors.children`), and so is what is found by walking, if the mirrored forest is linked
(`Mirrors.ancestors`, `Mirrors.collect`, `Mirrors.tree`). Every operation keeps a
mirror a mirror when it is applied to corresponding nodes, whatever else the larger
forest has.
-/

import MediaGrouping.Proofs.Forest.Rooted
import Mathlib.Data.List.Basic

namespace MediaGrouping

theorem idxOf?_map_of_injective {ρ : NodeId → NodeId} (hρ : Function.Injective ρ)
    (ns : List NodeId) (n : NodeId) : (ns.map ρ).idxOf? (ρ n) = ns.idxOf? n := by
  have hbeq : (· == ρ n) ∘ ρ = (· == n) := funext fun m => by
    simp [hρ.eq_iff]
  rw [List.idxOf?, List.findIdx?_map, hbeq, List.idxOf?]

/-- The entry with its links renumbered. -/
def Entry.rename (ρ : NodeId → NodeId) (e : Entry) : Entry :=
  { e with parent := e.parent.map ρ, children := e.children.map ρ }

/-! ### Planted trees -/

namespace Tree

variable {ρ : NodeId → NodeId} {first first' : NodeId}

theorem tops_rename (ts : List Tree) :
    ∀ {first first' : NodeId}, (∀ i, ρ (first + i) = first' + i) →
      tops first' ts = (tops first ts).map ρ := by
  induction ts with
  | nil => exact fun _ => rfl
  | cons t ts ih =>
    intro first first' h
    have hrest : ∀ i, ρ (first + t.size + i) = first' + t.size + i := fun i => by
      rw [Nat.add_assoc, h, Nat.add_assoc]
    have hfirst : ρ first = first' := h 0
    rw [tops, tops, List.map_cons, ih hrest, hfirst]

mutual

/-- **A tree planted elsewhere** has the same entries, but for the numbers. -/
theorem entries_rename {p : Option NodeId} :
    ∀ {first first' : NodeId} {t : Tree}, (∀ i, ρ (first + i) = first' + i) →
      t.entries (p.map ρ) first' = (t.entries p first).map (Entry.rename ρ)
  | first, first', .node c s cs, h => by
    have hrest : ∀ i, ρ (first + 1 + i) = first' + 1 + i := fun i => by
      rw [Nat.add_assoc, h, Nat.add_assoc]
    have hfirst : some first' = (some first).map ρ := congrArg some (h 0).symm
    rw [entries, entries, List.map_cons, hfirst, entriesAll_rename hrest, tops_rename cs hrest]
    rfl

theorem entriesAll_rename {p : Option NodeId} :
    ∀ {first first' : NodeId} {ts : List Tree}, (∀ i, ρ (first + i) = first' + i) →
      entriesAll (p.map ρ) first' ts = (entriesAll p first ts).map (Entry.rename ρ)
  | _, _, [], _ => rfl
  | first, first', t :: ts, h => by
    have hrest : ∀ i, ρ (first + t.size + i) = first' + t.size + i := fun i => by
      rw [Nat.add_assoc, h, Nat.add_assoc]
    rw [entriesAll, entriesAll, List.map_append, entries_rename h, entriesAll_rename hrest]

end

end Tree

namespace Forest

/-- The entries of a planted tree come after those that were there. -/
theorem get?_plant_add (f : Forest) (t : Tree) (i : Nat) :
    (f.plant t).2.get? (f.size + i) = (t.entries none f.size)[i]? := by
  rw [Forest.get?, Forest.plant, size, Array.getElem?_append_right (Nat.le_add_right _ _),
    Nat.add_sub_cancel_left, List.getElem?_toArray]

/-- **A forest that mirrors `h`** under the numbering `ρ`, and is like `rest` otherwise. -/
structure Mirrors (ρ : NodeId → NodeId) (rest h f : Forest) : Prop where
  inj : Function.Injective ρ
  size_le : h.size ≤ f.size
  next : ∀ i, ρ (h.size + i) = f.size + i
  get? : ∀ n, f.get? (ρ n) = (h.get? n).map (Entry.rename ρ)
  frame : ∀ m, (∀ n, ρ n ≠ m) → f.get? m = rest.get? m

namespace Mirrors

variable {ρ : NodeId → NodeId} {rest h f : Forest} {n p c : NodeId} {ns cs : List NodeId}

theorem next_zero (hm : Mirrors ρ rest h f) : ρ h.size = f.size := hm.next 0

/-! ### Reading -/

theorem content? (hm : Mirrors ρ rest h f) (n : NodeId) : f.content? (ρ n) = h.content? n := by
  rw [Forest.content?, hm.get?, Option.map_map]
  rfl

theorem source? (hm : Mirrors ρ rest h f) (n : NodeId) : f.source? (ρ n) = h.source? n := by
  rw [Forest.source?, hm.get?, Forest.source?]
  cases h.get? n <;> rfl

theorem parent? (hm : Mirrors ρ rest h f) (n : NodeId) :
    f.parent? (ρ n) = (h.parent? n).map ρ := by
  rw [Forest.parent?, hm.get?, Forest.parent?]
  cases h.get? n <;> rfl

theorem children (hm : Mirrors ρ rest h f) (n : NodeId) :
    f.children (ρ n) = (h.children n).map ρ := by
  rw [Forest.children, hm.get?, Forest.children]
  cases h.get? n <;> rfl

theorem holds (hm : Mirrors ρ rest h f) (test : Content → Bool) (n : NodeId) :
    f.holds test (ρ n) = h.holds test n := by
  rw [Forest.holds, hm.content?, Forest.holds]

theorem atRule? (hm : Mirrors ρ rest h f) (n : NodeId) : f.atRule? (ρ n) = h.atRule? n := by
  rw [Forest.atRule?, hm.content?, Forest.atRule?]

theorem indexOf? (hm : Mirrors ρ rest h f) (p c : NodeId) :
    f.indexOf? (ρ p) (ρ c) = h.indexOf? p c := by
  rw [Forest.indexOf?, hm.children, Forest.indexOf?, idxOf?_map_of_injective hm.inj]

/-! ### Walking -/

theorem ancestorsUpTo (hm : Mirrors ρ rest h f) (limit : Nat) :
    ∀ n, f.ancestorsUpTo limit (ρ n) = (h.ancestorsUpTo limit n).map ρ := by
  induction limit with
  | zero => exact fun _ => rfl
  | succ limit ih =>
    intro n
    rw [Forest.ancestorsUpTo, hm.parent?, Forest.ancestorsUpTo]
    cases h.parent? n with
    | none => rfl
    | some p => rw [Option.map_some, List.map_cons, ← ih p]

theorem descendantsUpTo (hm : Mirrors ρ rest h f) (limit : Nat) :
    ∀ n, f.descendantsUpTo limit (ρ n) = (h.descendantsUpTo limit n).map ρ := by
  induction limit with
  | zero => exact fun _ => rfl
  | succ limit ih =>
    intro n
    rw [Forest.descendantsUpTo, hm.children, List.flatMap_map, Forest.descendantsUpTo,
      List.map_flatMap]
    refine List.flatMap_congr fun c _ => ?_
    rw [hm.holds, ih, List.map_cons]
    split_ifs <;> rfl

/-- **The ancestors of corresponding nodes correspond.** -/
theorem ancestors (hm : Mirrors ρ rest h f) (hl : h.Linked) (n : NodeId) :
    f.ancestors (ρ n) = (h.ancestors n).map ρ := by
  rw [Forest.ancestors, hm.ancestorsUpTo, hl.ancestorsUpTo_of_le hm.size_le]

theorem treeUpTo (hm : Mirrors ρ rest h f) (limit : Nat) :
    ∀ n, f.treeUpTo limit (ρ n) = h.treeUpTo limit n := by
  induction limit with
  | zero => exact fun _ => rfl
  | succ limit ih =>
    intro n
    rw [Forest.treeUpTo, hm.get?, Option.map_map, Forest.treeUpTo]
    refine Option.map_congr fun e _ => ?_
    have hcs : (e.children.map ρ).filterMap (f.treeUpTo limit)
        = e.children.filterMap (h.treeUpTo limit) := by
      rw [List.filterMap_map]
      exact List.filterMap_congr fun c _ => ih c
    exact congrArg (Tree.node e.content e.source) hcs

/-- **What is found below corresponding nodes corresponds.** -/
theorem collect (hm : Mirrors ρ rest h f) (hl : h.Linked) (test : Content → Bool) (n : NodeId) :
    f.collect test (ρ n) = (h.collect test n).map ρ := by
  rw [Forest.collect, descendants, hm.descendantsUpTo, hl.descendantsUpTo_of_le hm.size_le,
    List.filter_map, Forest.collect]
  congr 1
  exact List.filter_congr fun m _ => hm.holds test m

/-- **Corresponding nodes have the same tree.** -/
theorem tree (hm : Mirrors ρ rest h f) (hl : h.Linked) (n : NodeId) : f.tree (ρ n) = h.tree n := by
  rw [Forest.tree, tree?, hm.treeUpTo, hl.treeUpTo_of_le hm.size_le, Forest.tree]

/-! ### Changing -/

/-- **Corresponding changes to corresponding nodes.** -/
theorem modify (hm : Mirrors ρ rest h f) (n : NodeId) {change change' : Entry → Entry}
    (hc : ∀ e, (change e).rename ρ = change' (e.rename ρ)) :
    Mirrors ρ rest (h.modify n change) (f.modify (ρ n) change') where
  inj := hm.inj
  size_le := by rw [size_modify, size_modify]; exact hm.size_le
  next := by rw [size_modify, size_modify]; exact hm.next
  get? m := by
    simp only [get?_modify, hm.get?, hm.inj.eq_iff]
    split_ifs with hnm
    · rw [Option.map_map, Option.map_map]
      exact Option.map_congr fun e _ => (hc e).symm
    · rfl
  frame m hne := by rw [get?_modify, if_neg (hne n), hm.frame m hne]

theorem setParent (hm : Mirrors ρ rest h f) (n : NodeId) (p : Option NodeId) :
    Mirrors ρ rest (h.setParent n p) (f.setParent (ρ n) (p.map ρ)) :=
  hm.modify n fun _ => rfl

theorem setChildren (hm : Mirrors ρ rest h f) (n : NodeId) (cs : List NodeId) :
    Mirrors ρ rest (h.setChildren n cs) (f.setChildren (ρ n) (cs.map ρ)) :=
  hm.modify n fun _ => rfl

theorem detach (hm : Mirrors ρ rest h f) (n : NodeId) :
    Mirrors ρ rest (h.detach n) (f.detach (ρ n)) := by
  rw [Forest.detach, Forest.detach, hm.parent?]
  cases h.parent? n with
  | none => exact hm
  | some p =>
    rw [Option.map_some]
    simp only [hm.children, List.mem_map_of_injective hm.inj, ← List.map_erase hm.inj]
    split_ifs
    · exact (hm.setChildren p _).setParent n none
    · exact hm

theorem append (hm : Mirrors ρ rest h f) (p c : NodeId) :
    Mirrors ρ rest (h.append p c) (f.append (ρ p) (ρ c)) :=
  ((hm.detach c).setParent c (some p)).modify p fun e => by
    simp [Entry.rename]

theorem appendAll (cs : List NodeId) :
    ∀ {h f : Forest}, Mirrors ρ rest h f →
      Mirrors ρ rest (h.appendAll p cs) (f.appendAll (ρ p) (cs.map ρ)) := by
  induction cs with
  | nil => exact fun hm => hm
  | cons c cs ih => exact fun hm => ih (hm.append p c)

theorem insert (hm : Mirrors ρ rest h f) (p : NodeId) (index : Nat) (c : NodeId) :
    Mirrors ρ rest (h.insert p index c) (f.insert (ρ p) index (ρ c)) :=
  ((hm.detach c).setParent c (some p)).modify p fun e => by
    simp [Entry.rename, List.map_take, List.map_drop]

theorem detachChildren (hm : Mirrors ρ rest h f) (n : NodeId) :
    (f.detachChildren (ρ n)).1 = (h.detachChildren n).1.map ρ ∧
      Mirrors ρ rest (h.detachChildren n).2 (f.detachChildren (ρ n)).2 := by
  have hfold : ∀ (cs : List NodeId) {h f : Forest}, Mirrors ρ rest h f →
      Mirrors ρ rest (cs.foldl (fun h c => h.setParent c none) h)
        ((cs.map ρ).foldl (fun f c => f.setParent c none) f) := by
    intro cs
    induction cs with
    | nil => exact fun hm => hm
    | cons c cs ih => exact fun hm => ih (hm.setParent c none)
  refine ⟨hm.children n, ?_⟩
  rw [Forest.detachChildren, Forest.detachChildren, hm.children]
  exact hfold _ (hm.setChildren n [])

theorem insertAllBefore (cs : List NodeId) :
    ∀ {h f : Forest}, Mirrors ρ rest h f →
      Mirrors ρ rest (h.insertAllBefore p n cs) (f.insertAllBefore (ρ p) (ρ n) (cs.map ρ)) := by
  induction cs with
  | nil => exact fun hm => hm
  | cons c cs ih =>
    intro h f hm
    have hd := hm.detach c
    rw [List.map_cons, Forest.insertAllBefore, Forest.insertAllBefore, hd.indexOf?]
    cases (h.detach c).indexOf? p n with
    | none => exact hd
    | some index => exact ih (hd.insert p index c)

theorem insertBefore (hm : Mirrors ρ rest h f) (n : NodeId) (cs : List NodeId) :
    Mirrors ρ rest (h.insertBefore n cs) (f.insertBefore (ρ n) (cs.map ρ)) := by
  rw [Forest.insertBefore, Forest.insertBefore, hm.parent?]
  cases h.parent? n with
  | none => exact hm
  | some p => exact insertAllBefore cs hm

theorem unwrap (hm : Mirrors ρ rest h f) (n : NodeId) :
    Mirrors ρ rest (h.unwrap n) (f.unwrap (ρ n)) := by
  rw [Forest.unwrap, Forest.unwrap, hm.parent?]
  cases h.parent? n with
  | none => exact hm
  | some p =>
    obtain ⟨hcs, hd⟩ := hm.detachChildren n
    rw [Option.map_some]
    dsimp only
    rw [hcs]
    exact (hd.insertBefore n _).detach n

/-- **Trees planted in both forests** correspond to each other. -/
theorem plant (hm : Mirrors ρ rest h f) (t : Tree) :
    Mirrors ρ rest (h.plant t).2 (f.plant t).2 where
  inj := hm.inj
  size_le := by rw [size_plant, size_plant]; exact Nat.add_le_add_right hm.size_le _
  next i := by rw [size_plant, size_plant, Nat.add_assoc, hm.next, Nat.add_assoc]
  get? n := by
    have hentries : t.entries none f.size = (t.entries none h.size).map (Entry.rename ρ) :=
      Tree.entries_rename (p := none) hm.next
    rcases lt_or_ge n h.size with hn | hn
    · obtain ⟨e, he⟩ := exists_get? hn
      have hρ : f.get? (ρ n) = some (e.rename ρ) := by rw [hm.get?, he]; rfl
      rw [get?_plant t hn, get?_plant t (lt_size_of_get? hρ), hm.get?]
    · obtain ⟨i, rfl⟩ := Nat.exists_eq_add_of_le hn
      rw [hm.next, get?_plant_add, get?_plant_add, hentries, List.getElem?_map]
  frame m hne := by
    have hlt : m < f.size := by
      by_contra hge
      obtain ⟨i, rfl⟩ := Nat.exists_eq_add_of_le (Nat.le_of_not_lt hge)
      exact hne _ (hm.next i)
    rw [get?_plant t hlt, hm.frame m hne]

theorem copy (hm : Mirrors ρ rest h f) (hl : h.Linked) (n : NodeId) :
    (f.copy (ρ n)).1 = ρ (h.copy n).1 ∧ Mirrors ρ rest (h.copy n).2 (f.copy (ρ n)).2 := by
  rw [Forest.copy, Forest.copy, hm.tree hl]
  exact ⟨hm.next_zero.symm, hm.plant _⟩

end Mirrors
end Forest
end MediaGrouping
