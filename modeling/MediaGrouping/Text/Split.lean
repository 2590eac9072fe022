/-
# Splitting lists

A list is cut at the separators that stand at the top level, and the pieces are
trimmed. A piece of no characters at all is dropped, except the one after the
last separator when `trailing` asks for it: a query list keeps it (`a,` has the
items `a` and the empty text), a list of words does not. A piece of blanks that
are no separators is kept and becomes an empty item.
-/

import MediaGrouping.Text.Blank
import MediaGrouping.Text.Scan

namespace MediaGrouping
namespace Text

/-- The pieces between the top-level separators of a text: the first one, and
the ones after each separator. -/
def pieces (separators : List Char) (s : Scan) : Text → Text × List Text
  | [] => ([], [])
  | c :: rest =>
    let (piece, others) := pieces separators (s.step c) rest
    if s.stopsAt separators c then ([], piece :: others) else (c :: piece, others)

/-- The item of a piece, if the piece has any characters. -/
def itemOf (piece : Text) : List Text := if piece.isEmpty then [] else [trim piece]

/-- The items of a first piece and the pieces after it; the last piece has an
item even without characters if `trailing` is set. -/
def items (trailing : Bool) : Text → List Text → List Text
  | last, [] => if trailing then [trim last] else itemOf last
  | piece, next :: others => itemOf piece ++ items trailing next others

/-- The items of a list. -/
def split (separators : List Char) (trailing : Bool) (t : Text) : List Text :=
  let (piece, others) := pieces separators .start t
  items trailing piece others

/-- The alternatives of a query list, an empty last one included. -/
def commaItems (t : Text) : List Text := split [','] true t

/-- The words of a text. -/
def spaceItems (t : Text) : List Text := split [' ', '\n', '\t'] false t

end Text
end MediaGrouping
