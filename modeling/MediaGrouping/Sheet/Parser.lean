/-
# Reading sheets

The lexemes of a sheet are assembled into a tree by keeping the blocks that are
still open, innermost first. A closing brace ends the innermost one. The first
thing that is wrong is reported: a lexeme that cannot be read, a closing brace
without a block, or, at the end, the innermost block still open.

Byte order marks before the sheet belong to the encoding and are not counted.
-/

import MediaGrouping.Sheet.Lexeme

namespace MediaGrouping

/-- An open block: its header, where it began, and the nodes before it in its
parent, the latest first. -/
structure Frame where
  header : Content
  position : Position
  before : List Tree

namespace Frame

/-- The block with its children, the latest first, ahead of the nodes before it. -/
def close (f : Frame) (children : List Tree) : List Tree :=
  .node f.header (some f.position) children.reverse :: f.before

end Frame

namespace Tree

/-- The top-level nodes that the lexemes make up, given the open blocks, the
nodes so far in the innermost of them, the latest first, and the error after the
last lexeme. -/
def assemble (error : Option ParseError) :
    List Frame → List Tree → List Lexeme → Except ParseError (List Tree)
  | frames, nodes, [] =>
    match error, frames with
    | some e, _ => .error e
    | none, f :: _ => .error ⟨.unclosedBlock, f.position⟩
    | none, [] => .ok nodes.reverse
  | frames, nodes, lexeme :: rest =>
    match lexeme.segment, frames with
    | .single content, _ =>
      assemble error frames (.node content (some lexeme.position) [] :: nodes) rest
    | .opening header, _ => assemble error (⟨header, lexeme.position, nodes⟩ :: frames) [] rest
    | .closing, f :: outer => assemble error outer (f.close nodes) rest
    | .closing, [] => .error ⟨.unexpectedClose, lexeme.position⟩

/-- A text without the byte order marks it begins with. -/
def withoutMarks (t : Text) : Text := t.dropWhile (· == '\uFEFF')

/-- The tree of a sheet. -/
def parse (css : Text) : Except ParseError Tree :=
  let (lexemes, error) := Lexeme.scan (withoutMarks css)
  (assemble error [] [] lexemes).map (.node .root none)

end Tree
end MediaGrouping
