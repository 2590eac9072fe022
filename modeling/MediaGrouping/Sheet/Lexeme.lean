/-
# Lexemes

A sheet is a row of lexemes with gaps of blanks and semicolons between them. A
lexeme opens a block (the header of a rule or of an at-rule, with its brace),
closes one, or stands for a node without a block: a statement, a declaration or
a comment. Headers and declarations extend to the first `;`, `{` or `}` outside
quotes, escapes and parentheses; what they hold is not looked at. They are read
with one character of look-ahead: a backslash takes the character after it along.

A lexeme is read from the text it begins; `Lexeme.scan` walks over the sheet,
keeps count of lines and columns, and stops at the first lexeme that cannot be
read.
-/

import MediaGrouping.Sheet.Content
import MediaGrouping.Text.Alphanumeric

namespace MediaGrouping

/-- What is wrong with a sheet. -/
inductive Fault where
  | unclosedBlock
  | unclosedComment
  | unexpectedClose
  | unknownWord (word : Text)
  deriving DecidableEq

/-- A fault and its position. -/
structure ParseError where
  fault : Fault
  position : Position
  deriving DecidableEq

namespace ParseError

/-- The text of a parse error. -/
def message (e : ParseError) : String :=
  e.position.describe ++ ": " ++
    match e.fault with
    | .unclosedBlock => "unclosed block"
    | .unclosedComment => "unclosed comment"
    | .unexpectedClose => "unexpected \x7d"
    | .unknownWord word => "unknown word " ++ String.ofList word

end ParseError

/-- What a lexeme stands for. -/
inductive Segment where
  /-- The header of a block, and its opening brace. -/
  | opening (header : Content)
  | closing
  /-- A node without a block. -/
  | single (content : Content)
  deriving DecidableEq

/-- A segment of a sheet and the position of its first character. -/
structure Lexeme where
  segment : Segment
  position : Position
  deriving DecidableEq

namespace Segment

/-- The characters that end a header or a declaration at the top level. -/
def stops : List Char := [';', '{', '}']

/-- The quote that is open after a character that is not escaped. -/
def quoteAfter (quote : Option Char) (c : Char) : Option Char :=
  match quote with
  | some opened => if c = opened then none else some opened
  | none => if c = '"' ∨ c = '\'' then some c else none

/-- The number of open parentheses after a character that is not escaped; in a
quote none are counted. -/
def depthAfter (quote : Option Char) (depth : Nat) (c : Char) : Nat :=
  match quote with
  | some _ => depth
  | none => if c = '(' then depth + 1 else if c = ')' then depth - 1 else depth

/-- Whether a character that is not escaped ends a header or a declaration. -/
def endsAt (quote : Option Char) (depth : Nat) (c : Char) : Bool :=
  quote.isNone && depth == 0 && stops.contains c

/-- The text up to the end of a header or a declaration, and the rest, where a
quote may be open and `depth` parentheses are. -/
def preludeFrom (quote : Option Char) (depth : Nat) : Text → Text × Text
  | [] => ([], [])
  | [c] => if endsAt quote depth c then ([], [c]) else ([c], [])
  | c :: next :: rest =>
    if c = '\\' then
      let (text, left) := preludeFrom quote depth rest
      (c :: next :: text, left)
    else if endsAt quote depth c then ([], c :: next :: rest)
    else
      let (text, left) :=
        preludeFrom (quoteAfter quote c) (depthAfter quote depth c) (next :: rest)
      (c :: text, left)

/-- The text of the header or the declaration that a text begins with, and the rest. -/
def prelude (t : Text) : Text × Text := preludeFrom none 0 t

/-- The characters of an at-rule's name. -/
def isNameChar (c : Char) : Bool := Text.isAlphanumeric c || c == '-' || c == '_'

/-- The text up to the end of a comment. -/
def commentBody? : Text → Option Text
  | [] => none
  | '*' :: '/' :: _ => some []
  | c :: rest => (commentBody? rest).map (c :: ·)

/-- A value and whether it is marked as important. -/
def splitImportant (value : Text) : Text × Bool :=
  match Text.dropTail? "!important".toList value with
  | some plain => (Text.trimEnd plain, true)
  | none => (value, false)

/-- The declaration in a text with a colon; the first colon ends the property. -/
def declaration? (t : Text) : Option Declaration :=
  match t.dropWhile (· != ':') with
  | [] => none
  | _ :: rest =>
    let (value, important) := splitImportant (Text.trim rest)
    some ⟨Text.trim (t.takeWhile (· != ':')), value, important⟩

/-- An at-rule, the `@` having been read, and the text it takes up. -/
def readAtRule (t : Text) : Segment × Text :=
  let name := t.takeWhile isNameChar
  let (params, left) := prelude (t.dropWhile isNameChar)
  match left with
  | '{' :: _ => (.opening (.atRule ⟨name, Text.trim params, true⟩), '@' :: name ++ params ++ ['{'])
  | _ => (.single (.atRule ⟨name, Text.trim params, false⟩), '@' :: name ++ params)

/-- A rule's header or a declaration, and the text it takes up. -/
def readPlain (t : Text) : Except Fault (Segment × Text) :=
  let (text, left) := prelude t
  match left with
  | '{' :: _ => .ok (.opening (.rule (Text.trim text)), text ++ ['{'])
  | _ =>
    match declaration? text with
    | some d => .ok (.single (.declaration d), text)
    | none => .error (.unknownWord (Text.trim text))

/-- The segment that a text begins with, and the text it takes up. -/
def read : Text → Except Fault (Segment × Text)
  | '}' :: _ => .ok (.closing, ['}'])
  | '@' :: rest => .ok (readAtRule rest)
  | '/' :: '*' :: rest =>
    match commentBody? rest with
    | some raw => .ok (.single (.comment (.ofRaw raw)), '/' :: '*' :: raw ++ ['*', '/'])
    | none => .error .unclosedComment
  | t => readPlain t

end Segment

namespace Lexeme

/-- The characters between lexemes. -/
def isGap (c : Char) : Bool := Text.isBlank c || c == ';'

/-- The lexemes of a text that begins at a position, and the error that ended
them, if any. The first `skip` characters still belong to the lexeme before. -/
def scanFrom (skip : Nat) (p : Position) : Text → List Lexeme × Option ParseError
  | [] => ([], none)
  | c :: rest =>
    match skip with
    | skip + 1 => scanFrom skip (p.step c) rest
    | 0 =>
      if isGap c then scanFrom 0 (p.step c) rest
      else
        match Segment.read (c :: rest) with
        | .error fault => ([], some ⟨fault, p⟩)
        | .ok (segment, taken) =>
          let (lexemes, error) := scanFrom (taken.length - 1) (p.step c) rest
          (⟨segment, p⟩ :: lexemes, error)

/-- The lexemes of a sheet. -/
def scan (t : Text) : List Lexeme × Option ParseError := scanFrom 0 .start t

end Lexeme
end MediaGrouping
