/-
# The labels above a block

Where a block belongs is decided by the labels above it: the foreign at-rule
right above the block aside, they are to be the root alone, or a wrapper and the
root (`Scope.anchor?`), and two wrappers are an offence (`Scope.offence?`). What
`Scope.locateBelow` finds in a forest is read off the labels (`Scope.locate_eq`).

Taking the branch of a block away shortens the chains of the blocks inside it to
end at that block. That hides no offence and makes none, unless the block is a
wrapper itself (`Scope.offence?_append`).
-/

import MediaGrouping.Proofs.Forest.Planted
import MediaGrouping.Proofs.Options.Predicates

namespace MediaGrouping

theorem Content.eq_of_atRule? {c : Content} {r : AtRule} (h : c.atRule? = some r) :
    c = .atRule r := by
  cases c with
  | atRule r' => exact congrArg _ (Option.some.inj h)
  | root | rule | declaration | comment => cases h

namespace Scope

variable (o : Options) (name : Text)

/-- Whether what a node is bounds a scope. -/
def bounds (c : Content) : Bool := c.isRoot || o.wraps c

/-- Whether this is an at-rule of another name that bounds no scope. -/
def foreign (c : Content) : Bool := !bounds o c && c.atRule?.any (·.name != name)

/-- The labels above a block, the foreign at-rule right above it aside. -/
def scopes : List Label → List Label
  | [] => []
  | l :: above => if foreign o name l.content then above else l :: above

/-- The foreign at-rule right above a block. -/
def foreign? (above : List Label) : Option Label := above.head?.filter (foreign o name ·.content)

/-- The anchor of a block below these scopes. -/
def anchorOf : List Label → Option Label
  | [a] => if bounds o a.content then some a else none
  | [a, b] => if o.wraps a.content && b.content.isRoot then some a else none
  | _ => none

/-- The nested wrapper above a block below these scopes. -/
def offenceOf : List Label → Option Label
  | a :: b :: _ => if o.wraps a.content && o.wraps b.content then some b else none
  | _ => none

/-- The anchor of a block below these labels, if the block can be moved. -/
def anchor? (above : List Label) : Option Label := anchorOf o (scopes o name above)

/-- The nested wrapper above a block, the second of two on end. -/
def offence? (above : List Label) : Option Label := offenceOf o (scopes o name above)

/-- The labels end with a root or an at-rule of the name, and no other is a root. -/
def Ends (above : List Label) : Prop :=
  ∃ path last, above = path ++ [last] ∧
    (last.content.isRoot = true ∨ last.content.isAtRuleNamed name = true) ∧
    ∀ l ∈ path, l.content.isRoot = false

/-- Whether a forest has the contents of labels. -/
def Agrees (f : Forest) (above : List Label) : Prop :=
  ∀ l ∈ above, f.content? l.id = some l.content

variable {o name} {f : Forest} {above path : List Label} {l last : Label}

theorem wraps_root {c : Content} (h : c.isRoot = true) : o.wraps c = false := by
  rw [Options.wraps_eq, h]; rfl

theorem isWrapper_eq (h : f.content? l.id = some l.content) :
    isWrapper o f l.id = o.wraps l.content := by
  rw [isWrapper, Forest.holds, h, Options.isWrapper_eq_wraps]; rfl

theorem isScope_eq (h : f.content? l.id = some l.content) :
    isScope o f l.id = bounds o l.content := by
  rw [isScope, isWrapper_eq h, Forest.holds, h]; rfl

theorem isForeign_eq (h : f.content? l.id = some l.content) :
    isForeign o name f l.id = foreign o name l.content := by
  rw [isForeign, isScope_eq h, Forest.atRule?, h]; rfl

theorem bounds_eq_wraps {c : Content} (h : c.isRoot = false) : bounds o c = o.wraps c := by
  rw [bounds, h, Bool.false_or]

/-- An at-rule of the name is not foreign. -/
theorem foreign_of_named {c : Content} (h : c.isAtRuleNamed name = true) :
    foreign o name c = false := by
  cases c with
  | atRule r =>
    have hr : r.name = name := beq_iff_eq.1 h
    simp [foreign, Content.atRule?, hr]
  | _ => cases h

theorem isRoot_of_named {c : Content} (h : c.isAtRuleNamed name = true) : c.isRoot = false := by
  cases c <;> first | rfl | cases h

/-- A root is not foreign. -/
theorem foreign_of_isRoot {c : Content} (h : c.isRoot = true) : foreign o name c = false := by
  rw [foreign, bounds, h]; rfl

theorem wraps_of_foreign {c : Content} (h : foreign o name c = true) :
    o.wraps c = false := by
  rw [foreign, bounds, Bool.and_eq_true, Bool.not_eq_true', Bool.or_eq_false_iff] at h
  exact h.1.2

theorem exists_rule_of_foreign {c : Content} (h : foreign o name c = true) :
    ∃ rule, c.atRule? = some rule := by
  rw [foreign, Bool.and_eq_true, Option.any_eq_true] at h
  obtain ⟨-, rule, hr, -⟩ := h
  exact ⟨rule, hr⟩

/-- **Climbing tells the nested wrapper, or the anchor.** -/
theorem climb_eq (hf : Agrees f above) (he : Ends name above) :
    climb o f none (above.map Label.id) = match offenceOf o above with
      | some w => .error (.nested w.id)
      | none => match anchorOf o above with
        | some a => .ok (some a.id)
        | none => .error .tooDeep := by
  obtain ⟨path, last, rfl, -, hp⟩ := he
  have hs : ∀ l ∈ path ++ [last], isScope o f l.id = bounds o l.content :=
    fun l hl => isScope_eq (hf l hl)
  have hw : ∀ l ∈ path ++ [last], isWrapper o f l.id = o.wraps l.content :=
    fun l hl => isWrapper_eq (hf l hl)
  match path, hp with
  | [], _ =>
    have hl := hs last (by simp)
    cases hb : bounds o last.content <;> simp [climb, offenceOf, anchorOf, hl, hb]
  | [a], hp =>
    have ha := hs a (by simp)
    rw [bounds_eq_wraps (hp a (by simp))] at ha
    have hl := hs last (by simp)
    have hlw := hw last (by simp)
    cases hb : o.wraps a.content
    · simp [climb, offenceOf, anchorOf, ha, hb]
    · cases hr : last.content.isRoot
      · rw [bounds_eq_wraps hr] at hl
        cases hbl : o.wraps last.content <;>
          simp [climb, offenceOf, anchorOf, ha, hl, hlw, hb, hbl, hr]
      · have hbl : o.wraps last.content = false := wraps_root hr
        simp [climb, offenceOf, anchorOf, ha, hl, hlw, hb, hbl, hr, bounds]
  | a :: b :: path, hp =>
    have ha := hs a (by simp)
    have hb := hs b (by simp)
    have hbw := hw b (by simp)
    have hbr : b.content.isRoot = false := hp b (by simp)
    rw [bounds_eq_wraps (hp a (by simp))] at ha
    rw [bounds_eq_wraps hbr] at hb
    cases h₁ : o.wraps a.content <;> cases h₂ : o.wraps b.content <;>
      cases path <;> simp [climb, offenceOf, anchorOf, ha, hb, hbw, h₁, h₂]

theorem Ends.tail (h : Ends name (l :: above)) (hl : foreign o name l.content = true) :
    Ends name above := by
  obtain ⟨path, last, he, hlast, hp⟩ := h
  cases path with
  | nil =>
    obtain ⟨rfl, -⟩ := List.cons.inj he
    rcases hlast with hr | hn
    · rw [foreign_of_isRoot hr] at hl; cases hl
    · rw [foreign_of_named hn] at hl; cases hl
  | cons a path =>
    obtain ⟨rfl, rfl⟩ := List.cons.inj he
    exact ⟨path, last, rfl, hlast, fun m hm => hp m (List.mem_cons_of_mem _ hm)⟩

/-- **Where a block belongs is told by the labels above it.** -/
theorem locate_eq (hf : Agrees f above) (he : Ends name above) :
    locateBelow o name f (above.map Label.id) = match offence? o name above with
      | some w => .error (.nested w.id)
      | none => match anchor? o name above with
        | some a => .ok ⟨some a.id, (foreign? o name above).map Label.id⟩
        | none => .error .tooDeep := by
  cases above with
  | nil => obtain ⟨path, last, h, -⟩ := he; simp at h
  | cons l above =>
    have hl : isForeign o name f l.id = foreign o name l.content :=
      isForeign_eq (hf l List.mem_cons_self)
    rw [List.map_cons, locateBelow, hl, offence?, anchor?, scopes, foreign?, List.head?_cons,
      Option.filter_some]
    by_cases h : foreign o name l.content = true
    · rw [if_pos h, if_pos h, if_pos h,
        climb_eq (fun m hm => hf m (List.mem_cons_of_mem _ hm)) (he.tail h)]
      cases offenceOf o above with
      | some w => rfl
      | none => cases anchorOf o above <;> rfl
    · rw [if_neg h, if_neg h, if_neg h, ← List.map_cons, climb_eq hf he]
      cases offenceOf o (l :: above) with
      | some w => rfl
      | none => cases anchorOf o (l :: above) <;> rfl

theorem anchorOf_eq_some {a : Label} : anchorOf o above = some a ↔
    (above = [a] ∧ bounds o a.content = true) ∨
      ∃ b, above = [a, b] ∧ o.wraps a.content = true ∧ b.content.isRoot = true := by
  match above with
  | [] => simp [anchorOf]
  | [b] => simp [anchorOf]; grind
  | [b, c] => simp [anchorOf]; grind
  | b :: c :: d :: rest => simp [anchorOf]

theorem scopes_eq_or (o : Options) (name : Text) (above : List Label) :
    above = scopes o name above ∨
      ∃ l, foreign o name l.content = true ∧ above = l :: scopes o name above := by
  cases above with
  | nil => exact Or.inl rfl
  | cons l above =>
    rw [scopes]
    split_ifs with h
    · exact Or.inr ⟨l, h, rfl⟩
    · exact Or.inl rfl

theorem exists_append_scopes (o : Options) (name : Text) (above : List Label) :
    ∃ before, above = before ++ scopes o name above := by
  rcases scopes_eq_or o name above with he | ⟨k, -, he⟩
  · exact ⟨[], he⟩
  · exact ⟨[k], he⟩

theorem mem_of_mem_scopes (h : l ∈ scopes o name above) : l ∈ above := by
  rcases scopes_eq_or o name above with he | ⟨k, -, he⟩
  · rwa [he]
  · rw [he]
    exact List.mem_cons_of_mem _ h

/-- The anchor is the nearest label, a foreign at-rule aside. -/
theorem head?_of_anchor? {a : Label} (h : anchor? o name above = some a) :
    (scopes o name above).head? = some a := by
  rcases anchorOf_eq_some.1 h with ⟨he, -⟩ | ⟨b, he, -⟩ <;> rw [he] <;> rfl

theorem mem_of_anchor? {a : Label} (h : anchor? o name above = some a) : a ∈ above :=
  mem_of_mem_scopes (List.mem_of_head? (head?_of_anchor? h))

theorem mem_of_offence? {w : Label} (h : offence? o name above = some w) : w ∈ above := by
  suffices hs : w ∈ scopes o name above from mem_of_mem_scopes hs
  rw [offence?] at h
  match hs : scopes o name above with
  | [] => rw [hs] at h; cases h
  | [a] => rw [hs] at h; cases h
  | a :: b :: rest =>
    rw [hs, offenceOf] at h
    split_ifs at h
    rw [← Option.some.inj h]
    exact List.mem_cons_of_mem _ List.mem_cons_self

theorem offenceOf_cons {a : Label} (ha : o.wraps a.content = false) (rest : List Label) :
    offenceOf o (a :: rest) = none := by
  cases rest <;> simp [offenceOf, ha]

theorem offenceOf_cons_cons {a b : Label} (hb : o.wraps b.content = false)
    (rest : List Label) : offenceOf o (a :: b :: rest) = none := by
  simp [offenceOf, hb]

/-- **Above a node that is no wrapper no label counts as an offence.** If the
node is foreign, the one right above it is to be no wrapper either. -/
theorem offence?_append {a : Label} {rest : List Label} (ha : o.wraps a.content = false)
    (hr : foreign o name a.content = true → ∀ b ∈ rest.head?, o.wraps b.content = false) :
    offence? o name (path ++ a :: rest) = offence? o name path := by
  rw [offence?, offence?]
  match path with
  | [] =>
    rw [List.nil_append, scopes, scopes]
    split_ifs with hf
    · cases rest with
      | nil => rfl
      | cons b rest => exact offenceOf_cons (hr hf b rfl) rest
    · exact offenceOf_cons ha rest
  | [p] =>
    rw [List.singleton_append, scopes, scopes]
    split_ifs
    · exact offenceOf_cons ha rest
    · exact offenceOf_cons_cons ha rest
  | p :: q :: path =>
    rw [List.cons_append, List.cons_append, scopes, scopes]
    split_ifs
    · cases path with
      | nil => exact offenceOf_cons_cons ha rest
      | cons r path => rfl
    · rfl

/-- In a tree without a root, the anchor of a block is the top, and a wrapper. -/
theorem anchor?_of_named {a : Label} (hp : ∀ l ∈ path, l.content.isRoot = false)
    (hl : last.content.isAtRuleNamed name = true) (h : anchor? o name (path ++ [last]) = some a) :
    a = last ∧ o.wraps last.content = true := by
  have hr := isRoot_of_named hl
  have hf : foreign o name last.content = false := foreign_of_named hl
  match path, hp with
  | [], _ =>
    rw [anchor?, List.nil_append, scopes, if_neg (by simp [hf]), anchorOf,
      bounds_eq_wraps hr] at h
    split_ifs at h with hw
    exact ⟨(Option.some.inj h).symm, hw⟩
  | [p], hp =>
    rw [anchor?, List.singleton_append, scopes] at h
    split_ifs at h
    · rw [anchorOf, bounds_eq_wraps hr] at h
      split_ifs at h with hw
      exact ⟨(Option.some.inj h).symm, hw⟩
    · simp [anchorOf, hr] at h
  | p :: q :: path, hp =>
    rw [anchor?, List.cons_append, List.cons_append, scopes] at h
    split_ifs at h
    · cases path <;> simp [anchorOf, hr] at h
    · cases path <;> simp [anchorOf] at h

end Scope
end MediaGrouping
