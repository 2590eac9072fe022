/-
# Wrappers, and kinds of wrapper predicates

A wrapper is a node other than the root that the predicate of the options accepts
(`Options.wraps`), which is what a run takes for one (`Options.isWrapper_eq_wraps`).

The theorems may ask something of the predicate. A predicate that decides
by type, name, parameters and selector is blind to whether an at-rule has a block
(`Options.Blind`). It may have to reject the at-rules that are grouped
(`Options.SparesMedia`), or the nodes that hold no others (`Options.SparesStyles`).
The at-rules of a name meet all of this, if the name is not that of media queries.
-/

import MediaGrouping.Grouping.Transform

namespace MediaGrouping

namespace Options

/-- **A wrapper**: a node other than the root that the predicate accepts. -/
def wraps (o : Options) (c : Content) : Bool := c != .root && o.wrapper c

/-- **A run takes the wrappers for wrappers**, and no other nodes. -/
theorem isWrapper_eq_wraps (o : Options) : o.isWrapper = o.wraps := by
  funext c
  cases c <;> rfl

theorem wraps_eq (o : Options) (c : Content) : o.wraps c = (!c.isRoot && o.wrapper c) :=
  (congrFun o.isWrapper_eq_wraps c).symm

/-- **A blind predicate** does not look at whether an at-rule has a block, as no
predicate does that decides by type, name, parameters and selector. -/
def Blind (o : Options) : Prop := ∀ c : Content, o.wrapper c.withBlock = o.wrapper c

/-- The predicate rejects the at-rules that are grouped. -/
def SparesMedia (o : Options) : Prop :=
  ∀ c : Content, c.isAtRuleNamed Grouping.mediaName = true → o.wrapper c = false

theorem Blind.of_named {o : Options} {name : Text} (h : o.wrapper = Content.isAtRuleNamed name) :
    o.Blind := fun c => by
  rw [h, Content.isAtRuleNamed_withBlock]

theorem SparesMedia.of_named {o : Options} {name : Text}
    (h : o.wrapper = Content.isAtRuleNamed name) (hn : name ≠ Grouping.mediaName) :
    o.SparesMedia := fun c hc => by
  rw [h]
  cases c with
  | atRule r =>
    have hr : r.name = Grouping.mediaName := beq_iff_eq.1 hc
    exact beq_eq_false_iff_ne.2 fun he => hn (he.symm.trans hr)
  | root | rule | declaration | comment => rfl

theorem Blind.wraps_withBlock {o : Options} (h : o.Blind) (c : Content) :
    o.wraps c.withBlock = o.wraps c := by
  rw [wraps_eq, wraps_eq, Content.isRoot_withBlock, h c]

theorem SparesMedia.wraps {o : Options} (h : o.SparesMedia) {c : Content}
    (hc : c.isAtRuleNamed Grouping.mediaName = true) : o.wraps c = false := by
  rw [Options.wraps, h c hc, Bool.and_false]

/-- The predicate accepts no declaration and no comment. -/
def SparesStyles (o : Options) : Prop :=
  ∀ c : Content, c.isContainer = false → o.wrapper c = false

theorem SparesStyles.of_named {o : Options} {name : Text}
    (h : o.wrapper = Content.isAtRuleNamed name) : o.SparesStyles := fun c hc => by
  rw [h]
  cases c with
  | atRule r => cases hc
  | root | rule | declaration | comment => rfl

theorem SparesStyles.isContainer {o : Options} (h : o.SparesStyles) {c : Content}
    (hw : o.wraps c = true) : c.isContainer = true := by
  cases hc : c.isContainer with
  | true => rfl
  | false =>
    rw [wraps, h c hc, Bool.and_false] at hw
    cases hw

end Options
end MediaGrouping
