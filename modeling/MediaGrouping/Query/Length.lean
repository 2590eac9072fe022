/-
# Lengths

The approximate size, in pixels, of the first length in a text, only meant for
ordering queries against each other. A length is an optional minus sign, digits
with at most one decimal point among them and at least one digit after it, and
a unit. The measurement starts at the leftmost character at which a length
begins, whatever surrounds it. A text without a length has no bound, and
neither has a length with digits that are not ASCII, since these have no value.
-/

import MediaGrouping.Number.Binary64
import MediaGrouping.Text.DecimalDigit

namespace MediaGrouping

/-- A unit of length. -/
inductive LengthUnit where
  | ch
  | em
  | ex
  | px
  | rem
  deriving DecidableEq

namespace LengthUnit

/-- The unit a text begins with. -/
def read? : Text → Option LengthUnit
  | 'c' :: 'h' :: _ => some .ch
  | 'e' :: 'm' :: _ => some .em
  | 'e' :: 'x' :: _ => some .ex
  | 'p' :: 'x' :: _ => some .px
  | 'r' :: 'e' :: 'm' :: _ => some .rem
  | _ => none

/-- The pixels to one unit, as a quotient, in a default font: `8.8984375` for
`ch`, `16` for `em` and `rem`, `8.296875` for `ex`. -/
def pixels : LengthUnit → Nat × Nat
  | .ch => (1139, 128)
  | .em | .rem => (16, 1)
  | .ex => (531, 64)
  | .px => (1, 1)

end LengthUnit

/-- A length as written: sign, digits before and after the decimal point, unit. -/
structure Length where
  negative : Bool
  whole : Text
  fraction : Text
  unit : LengthUnit
  deriving DecidableEq

namespace Length

/-- The length that begins with these digits, a sign before them having been read. -/
def readUnsigned? (negative : Bool) (t : Text) : Option Length :=
  let whole := t.takeWhile Text.isDecimalDigit
  match t.dropWhile Text.isDecimalDigit with
  | '.' :: rest =>
    let fraction := rest.takeWhile Text.isDecimalDigit
    if fraction.isEmpty then none
    else (LengthUnit.read? (rest.dropWhile Text.isDecimalDigit)).map (⟨negative, whole, fraction, ·⟩)
  | rest =>
    if whole.isEmpty then none
    else (LengthUnit.read? rest).map (⟨negative, whole, [], ·⟩)

/-- The length a text begins with. -/
def read? : Text → Option Length
  | '-' :: rest => readUnsigned? true rest
  | t => readUnsigned? false t

/-- The length that begins leftmost in a text. -/
def find? : Text → Option Length
  | [] => none
  | c :: rest =>
    match read? (c :: rest) with
    | some length => some length
    | none => find? rest

/-- The value of decimal digits. -/
def numeral (digits : Text) : Nat :=
  digits.foldl (fun n c => 10 * n + (c.toNat - '0'.toNat)) 0

/-- The number before the unit, correctly rounded; digits outside ASCII have none. -/
def number? (l : Length) : Option Binary64 :=
  if l.whole.all Char.isDigit && l.fraction.all Char.isDigit then
    some (.ofQuotient l.negative (numeral (l.whole ++ l.fraction)) (Nat.pow 10 l.fraction.length))
  else none

/-- The key of lengths that cannot be compared, after every finite length. -/
def unbounded : Binary64 := .largest

/-- The size of a length in pixels. -/
def size (l : Length) : Binary64 :=
  match l.number? with
  | some number => number.scale l.unit.pixels.1 l.unit.pixels.2
  | none => unbounded

/-- The size in pixels of the first length in a text. Without a unit only the
text `0` has a size. -/
def pixelSize (t : Text) : Binary64 :=
  if t = ['0'] then .zero
  else
    match find? t with
    | some length => length.size
    | none => unbounded

end Length
end MediaGrouping
