/-
# Options

How merged blocks are ordered, and which nodes are wrappers: a wrapper bounds a
scope of its own and is removed once the scope has been grouped. By default
blocks keep the order in which they were found, and the at-rules named `mqgroup`
are wrappers. The sheet itself is always a scope and never a wrapper.
-/

import MediaGrouping.Query.Order
import MediaGrouping.Sheet.Content

namespace MediaGrouping

/-- The options of a grouping run. -/
structure Options where
  sort : SortPolicy := .preserve
  wrapper : Content → Bool := Content.isAtRuleNamed "mqgroup".toList

namespace Options

/-- Whether a node is a wrapper. -/
def isWrapper (o : Options) (c : Content) : Bool := !c.isRoot && o.wrapper c

/-- The options with the at-rules of another name as wrappers. -/
def withWrapperName (o : Options) (name : Text) : Options :=
  { o with wrapper := Content.isAtRuleNamed name }

/-- The options in one line, for messages. -/
def description (o : Options) : String :=
  "MqGroupOptions \x7b sort: " ++ o.sort.description ++ ", .. \x7d"

end Options
end MediaGrouping
