/-
# Blank characters

The Unicode property `White_Space`, which the sheet reader and the list
splitter both skip and trim by, and trimming itself. A no-break space is
blank; a zero-width space and a byte order mark are not.
-/

import MediaGrouping.Text.Ranges

namespace MediaGrouping
namespace Text

/-- The code points of the Unicode property `White_Space`. -/
def blankRanges : Ranges :=
  [(0x0009, 0x000d), (0x0020, 0x0020), (0x0085, 0x0085), (0x00a0, 0x00a0), (0x1680, 0x1680),
   (0x2000, 0x200a), (0x2028, 0x2029), (0x202f, 0x202f), (0x205f, 0x205f), (0x3000, 0x3000)]

/-- Whether a character is white space. -/
def isBlank (c : Char) : Bool := blankRanges.holds c

/-- A text without its leading blanks. -/
def trimStart (t : Text) : Text := t.dropWhile isBlank

/-- A text without its trailing blanks. -/
def trimEnd (t : Text) : Text := (t.reverse.dropWhile isBlank).reverse

/-- A text without the blanks at either end. -/
def trim (t : Text) : Text := trimEnd (trimStart t)

/-- The blanks a text begins with. -/
def leadingBlanks (t : Text) : Text := t.takeWhile isBlank

/-- The blanks a text ends with. -/
def trailingBlanks (t : Text) : Text := (t.reverse.takeWhile isBlank).reverse

end Text
end MediaGrouping
