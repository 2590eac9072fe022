/-
# The contents of a sheet

A node of a style sheet is the sheet itself, an at-rule, a rule, a declaration
or a comment. Selectors, parameters and values are kept as texts, without a look
inside. The sheet, at-rules and rules contain other nodes.
-/

import MediaGrouping.Sheet.Position
import MediaGrouping.Text.Blank

namespace MediaGrouping

/-- An at-rule: a block such as `@media print { … }`, or a statement such as
`@import "theme";`. -/
structure AtRule where
  name : Text
  params : Text
  hasBlock : Bool
  deriving DecidableEq

/-- A property and its value. -/
structure Declaration where
  property : Text
  value : Text
  important : Bool
  deriving DecidableEq

/-- A comment, and the blanks between its marks and its text. -/
structure Comment where
  text : Text
  left : Text
  right : Text
  deriving DecidableEq

/-- What a node is, its children aside. -/
inductive Content where
  | root
  | atRule (rule : AtRule)
  | rule (selector : Text)
  | declaration (declaration : Declaration)
  | comment (comment : Comment)
  deriving DecidableEq

namespace Comment

/-- The comment with everything between its marks; a blank comment has all its
blanks on the left. -/
def ofRaw (raw : Text) : Comment :=
  let text := Text.trim raw
  if text.isEmpty then ⟨[], raw, []⟩
  else ⟨text, Text.leadingBlanks raw, Text.trailingBlanks raw⟩

/-- The comment with one space on either side of its text. -/
def spaced (text : Text) : Comment := ⟨text, [' '], [' ']⟩

end Comment

namespace AtRule

/-- The at-rule without its block. -/
def header (r : AtRule) : Text :=
  if r.params.isEmpty then '@' :: r.name else '@' :: r.name ++ ' ' :: r.params

end AtRule

namespace Content

/-- Whether this is the sheet itself. -/
def isRoot : Content → Bool
  | .root => true
  | _ => false

/-- Whether a search for nodes looks inside. -/
def isContainer : Content → Bool
  | .root | .atRule _ | .rule _ => true
  | .declaration _ | .comment _ => false

/-- The at-rule that a node is. -/
def atRule? : Content → Option AtRule
  | .atRule r => some r
  | _ => none

/-- Whether this is an at-rule of a name; case counts. -/
def isAtRuleNamed (name : Text) : Content → Bool
  | .atRule r => r.name == name
  | _ => false

/-- The name of the type of a node. -/
def typeName : Content → Text
  | .root => "root".toList
  | .atRule _ => "atrule".toList
  | .rule _ => "rule".toList
  | .declaration _ => "decl".toList
  | .comment _ => "comment".toList

/-- A node in one line, for messages. -/
def describe : Content → Text
  | .root => "root".toList
  | .atRule r => r.header
  | .rule selector => selector
  | .declaration d => d.property ++ ": ".toList ++ d.value
  | .comment c => "/* ".toList ++ c.text ++ " */".toList

/-- The node once it has children: an at-rule then has a block. -/
def withBlock : Content → Content
  | .atRule r => .atRule { r with hasBlock := true }
  | c => c

variable (c : Content)

@[simp] theorem withBlock_withBlock : c.withBlock.withBlock = c.withBlock := by
  cases c <;> rfl

@[simp] theorem isRoot_withBlock : c.withBlock.isRoot = c.isRoot := by
  cases c <;> rfl

@[simp] theorem isContainer_withBlock : c.withBlock.isContainer = c.isContainer := by
  cases c <;> rfl

@[simp] theorem isAtRuleNamed_withBlock (name : Text) :
    c.withBlock.isAtRuleNamed name = c.isAtRuleNamed name := by
  cases c <;> rfl

end Content

/-- A node with its position in the text it was read from, if any, and its
children. -/
inductive Tree where
  | node (content : Content) (source : Option Position) (children : List Tree)

namespace Tree

/-- What the top node is. -/
def content : Tree → Content
  | .node content _ _ => content

/-- Where the top node was read. -/
def source : Tree → Option Position
  | .node _ source _ => source

/-- The children of the top node. -/
def children : Tree → List Tree
  | .node _ _ children => children

end Tree
end MediaGrouping
