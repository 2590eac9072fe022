/-
# Positions

A position in a text is a line and a column, both counted from one. Columns
count characters, and only a line feed begins a new line.
-/

import MediaGrouping.Text.Basic

namespace MediaGrouping

/-- A line and a column. -/
structure Position where
  line : Nat
  column : Nat
  deriving DecidableEq

namespace Position

/-- The position of the first character. -/
def start : Position := ⟨1, 1⟩

/-- The position after one more character. -/
def step (p : Position) (c : Char) : Position :=
  if c = '\n' then ⟨p.line + 1, 1⟩ else ⟨p.line, p.column + 1⟩

/-- The position after a text. -/
def advance (p : Position) (t : Text) : Position := t.foldl step p

/-- Line and column, separated by a colon. -/
def describe (p : Position) : String := toString p.line ++ ":" ++ toString p.column

@[simp] theorem advance_nil (p : Position) : p.advance [] = p := rfl

@[simp] theorem advance_cons (p : Position) (c : Char) (t : Text) :
    p.advance (c :: t) = (p.step c).advance t := rfl

theorem advance_append (p : Position) (t u : Text) :
    p.advance (t ++ u) = (p.advance t).advance u := List.foldl_append

end Position
end MediaGrouping
