/-
# Scanning for the top level

Quotes, backslash escapes and parentheses protect what they enclose. A scan
passes over a text one character at a time and knows, before every character,
whether the character stands at the top level, where it may separate or end
something. Lists are split with this scan.

A backslash protects the next character inside quotes and outside; a quote ends
at the same quote character; parentheses nest outside quotes, and a closing one
without an opening one counts for nothing.
-/

import MediaGrouping.Text.Basic

namespace MediaGrouping
namespace Text

/-- What the next character is read as. -/
inductive Mode where
  | plain
  | escaped
  | quoted (quote : Char)
  | quotedEscaped (quote : Char)
  deriving DecidableEq

/-- The state of a scan: the mode, and the number of open parentheses. -/
structure Scan where
  mode : Mode
  depth : Nat
  deriving DecidableEq

namespace Scan

/-- The state before the first character. -/
def start : Scan := ⟨.plain, 0⟩

/-- The characters that steer the scan, and so never separate anything. -/
def isControl (c : Char) : Bool :=
  c == '\\' || c == '"' || c == '\'' || c == '(' || c == ')'

/-- The state after one more character. -/
def step (s : Scan) (c : Char) : Scan :=
  match s.mode with
  | .escaped => { s with mode := .plain }
  | .quotedEscaped quote => { s with mode := .quoted quote }
  | .quoted quote =>
    if c = '\\' then { s with mode := .quotedEscaped quote }
    else if c = quote then { s with mode := .plain }
    else s
  | .plain =>
    if c = '\\' then { s with mode := .escaped }
    else if c = '"' ∨ c = '\'' then { s with mode := .quoted c }
    else if c = '(' then { s with depth := s.depth + 1 }
    else if c = ')' then { s with depth := s.depth - 1 }
    else s

/-- The state after a text. -/
def run (s : Scan) (t : Text) : Scan := t.foldl step s

/-- Whether the next character stands outside quotes, escapes and parentheses. -/
def isTop (s : Scan) : Bool := s.mode == .plain && s.depth == 0

/-- Whether the next character, `c`, separates or ends something: it is one of
`stops`, it does not steer the scan, and it stands at the top level. -/
def stopsAt (stops : List Char) (s : Scan) (c : Char) : Bool :=
  s.isTop && !isControl c && stops.contains c

@[simp] theorem run_nil (s : Scan) : s.run [] = s := rfl

@[simp] theorem run_cons (s : Scan) (c : Char) (t : Text) : s.run (c :: t) = (s.step c).run t := rfl

theorem run_append (s : Scan) (t u : Text) : s.run (t ++ u) = (s.run t).run u :=
  List.foldl_append

end Scan
end Text
end MediaGrouping
