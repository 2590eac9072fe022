/-
# Measuring with operations that may be invalid

In double precision an operation may be invalid, and what it yields then is no number: it
is lost when the larger or smaller of two is taken, and compares with nothing. Here query
lists are measured with that in mind, each operation as the format has it (`queryMeasure`).
No operation is invalid: what digits stand for is a number, an infinity at worst, and no
factor of a unit is zero (`LengthUnit.times?_factor`), so that each product, each maximum
and each minimum is a number, the one the key is made of (`queryMeasure_eq`).
-/

import MediaGrouping.Proofs.Number.Rounding
import MediaGrouping.Query.Order

namespace MediaGrouping

/-- A number in double precision, or none, where an operation was invalid. -/
abbrev Double := Option Binary64

namespace Double

/-- The larger of two numbers; what is no number does not count. -/
def larger : Double → Double → Double
  | some x, some y => some (x.larger y)
  | some x, none => some x
  | none, y => y

/-- The smaller of two numbers; what is no number does not count. -/
def smaller : Double → Double → Double
  | some x, some y => some (x.smaller y)
  | some x, none => some x
  | none, y => y

/-- How two numbers compare; what is no number compares with nothing. -/
def compare? : Double → Double → Option Ordering
  | some x, some y => some (compare x.rank y.rank)
  | _, _ => none

theorem foldl_larger (x : Binary64) (ys : List Binary64) :
    (ys.map some).foldl larger (some x) = some (ys.foldl Binary64.larger x) := by
  induction ys generalizing x with
  | nil => rfl
  | cons y ys ih => exact ih (x.larger y)

theorem foldl_smaller (x : Binary64) (ys : List Binary64) :
    (ys.map some).foldl smaller (some x) = some (ys.foldl Binary64.smaller x) := by
  induction ys generalizing x with
  | nil => rfl
  | cons y ys ih => exact ih (x.smaller y)

end Double

namespace LengthUnit

/-- The pixels to one unit, in a default font. -/
def factor : LengthUnit → Binary64
  | .ch => .ofQuotient false 88984375 10000000
  | .em | .rem => .ofQuotient false 16 1
  | .ex => .ofQuotient false 8296875 1000000
  | .px => .ofQuotient false 1 1

/-- Every factor is a positive number, and exactly the quotient that lengths are scaled by. -/
theorem exists_units (u : LengthUnit) : ∃ units, u.factor = .finite false units ∧ 0 < units ∧
    0 < u.pixels.2 ∧ units * u.pixels.2 = u.pixels.1 * Binary64.twoTo 1074 := by
  cases u with
  | ch => exact ⟨1139 * Binary64.twoTo 1067, by decide +kernel⟩
  | em | rem => exact ⟨16 * Binary64.twoTo 1074, by decide +kernel⟩
  | ex => exact ⟨531 * Binary64.twoTo 1068, by decide +kernel⟩
  | px => exact ⟨Binary64.twoTo 1074, by decide +kernel⟩

/-- **The product with a factor is valid**, and what the length is scaled to. -/
theorem times?_factor (x : Binary64) (u : LengthUnit) :
    x.times? u.factor = some (x.scale u.pixels.1 u.pixels.2) := by
  obtain ⟨units, hfactor, hpos, hden, hexact⟩ := u.exists_units
  rw [hfactor, Binary64.times?_of_exact hden hpos hexact]

end LengthUnit

namespace Length

/-- What a length measures in pixels; only a size in other units takes a product. -/
def measured (l : Length) : Double :=
  match l.number? with
  | none => some unbounded
  | some x => if l.unit = .px then some x else x.times? l.unit.factor

/-- What the first length in a text measures in pixels. -/
def pixelMeasure (t : Text) : Double :=
  if t = ['0'] then some .zero
  else
    match find? t with
    | some length => length.measured
    | none => some unbounded

/-- The number before a unit is a value of the format. -/
theorem representable_number {l : Length} {x : Binary64} (h : l.number? = some x) :
    x.Representable := by
  unfold number? at h
  split_ifs at h
  exact Option.some.inj h ▸ Binary64.representable_ofUnits _ _ _

theorem measured_eq (l : Length) : l.measured = some l.size := by
  rw [measured, size]
  cases hx : l.number? with
  | none => rfl
  | some x =>
    dsimp only
    split_ifs with hpx
    · rw [hpx, LengthUnit.pixels, (representable_number hx).scale_one]
    · exact l.unit.times?_factor x

theorem pixelMeasure_eq (t : Text) : pixelMeasure t = some (pixelSize t) := by
  rw [pixelMeasure, pixelSize]
  split_ifs
  · rfl
  · cases find? t with
    | none => rfl
    | some l => exact l.measured_eq

end Length

namespace Expression

/-- The largest of several measures, unbounded if there are none. -/
def largestMeasure : List Double → Double
  | [] => some Length.unbounded
  | x :: xs => xs.foldl Double.larger x

/-- What an alternative asks for. -/
def widthMeasure (e : Expression) : Double :=
  if Registry.has e "not".toList || Registry.has e "print".toList then some Length.unbounded
  else
    match Registry.find? e "min-width".toList with
    | none => some Length.unbounded
    | some feature => largestMeasure (feature.tested.map Length.pixelMeasure)

/-- What a list of alternatives asks for. -/
def leastMeasure (list : List Expression) : Double :=
  (list.map widthMeasure).foldl Double.smaller (some Length.unbounded)

theorem largestMeasure_map (xs : List Binary64) :
    largestMeasure (xs.map some) = some (largestSize xs) := by
  cases xs with
  | nil => rfl
  | cons x xs => exact Double.foldl_larger x xs

theorem widthMeasure_eq (e : Expression) : widthMeasure e = some (widthKey e) := by
  have hmeasure : Length.pixelMeasure = some ∘ Length.pixelSize := funext Length.pixelMeasure_eq
  rw [widthMeasure, widthKey]
  split_ifs
  · rfl
  · cases Registry.find? e "min-width".toList with
    | none => rfl
    | some feature =>
      show largestMeasure (feature.tested.map Length.pixelMeasure) = _
      rw [hmeasure, ← List.map_map, largestMeasure_map]

end Expression

/-- What a query list asks for. -/
def queryMeasure (t : Text) : Double := Expression.leastMeasure (Expression.ofQueryList t)

/-- **No operation is invalid** in measuring a query list, and its measure is its key. -/
theorem queryMeasure_eq (t : Text) : queryMeasure t = some (queryKey t) := by
  have hmeasure : Expression.widthMeasure = some ∘ Expression.widthKey :=
    funext Expression.widthMeasure_eq
  rw [queryMeasure, Expression.leastMeasure, hmeasure, ← List.map_map, Double.foldl_smaller]
  rfl

/-- Digits beyond all bounds stand for an infinity, which is a number. -/
example : queryMeasure ("(min-width: -".toList ++ List.replicate 310 '9' ++ "em)".toList)
    = some (.infinite true) := by
  decide +kernel

end MediaGrouping
