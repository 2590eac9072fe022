/-
# Writing sheets

A sheet is written in one layout: every node on a line of its own, what is
inside a block indented by two more spaces, declarations as `property: value;`.
A block with nothing inside is written as `{}`. A sheet ends with a line feed
unless it is empty, any other node does not.
-/

import MediaGrouping.Sheet.Content

namespace MediaGrouping

namespace Declaration

/-- A declaration as written. -/
def print (d : Declaration) : Text :=
  d.property ++ [':', ' '] ++ d.value ++ (if d.important then " !important".toList else []) ++ [';']

end Declaration

namespace Comment

/-- A comment as written. -/
def print (c : Comment) : Text := ['/', '*'] ++ c.left ++ c.text ++ c.right ++ ['*', '/']

end Comment

namespace Tree

/-- The blanks before a node at a depth. -/
def indent (depth : Nat) : Text := List.replicate (2 * depth) ' '

/-- The lines of a block: its header, the lines inside it and the closing brace,
or a single line if there is nothing inside. -/
def blockLines (depth : Nat) (header : Text) (inner : List Text) : List Text :=
  if inner.isEmpty then [indent depth ++ header ++ [' ', '{', '}']]
  else (indent depth ++ header ++ [' ', '{']) :: inner ++ [indent depth ++ ['}']]

mutual

/-- The lines of a node at a depth. A text that holds line feeds counts as one
line. Inside another node, a sheet is written as its children, and as an empty
line if it has none. -/
def lines (depth : Nat) : Tree → List Text
  | .node .root _ children => if children.isEmpty then [[]] else linesAll depth children
  | .node (.comment c) _ _ => [indent depth ++ c.print]
  | .node (.declaration d) _ _ => [indent depth ++ d.print]
  | .node (.rule selector) _ children => blockLines depth selector (linesAll (depth + 1) children)
  | .node (.atRule r) _ children =>
    if !r.hasBlock && children.isEmpty then [indent depth ++ r.header ++ [';']]
    else blockLines depth r.header (linesAll (depth + 1) children)

/-- The lines of several nodes at a depth. -/
def linesAll (depth : Nat) : List Tree → List Text
  | [] => []
  | t :: ts => lines depth t ++ linesAll depth ts

end

/-- Lines, each with its line feed. -/
def endLines (ls : List Text) : Text := ls.flatMap (· ++ ['\n'])

/-- A tree as written on its own. -/
def css : Tree → Text
  | .node .root _ children => endLines (linesAll 0 children)
  | t => (endLines (lines 0 t)).dropLast

end Tree
end MediaGrouping
