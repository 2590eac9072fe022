/-
# Double precision numbers

The finite and infinite values of the IEEE 754 format binary64, exactly: every
finite value is a sign and a whole number of units of `2^(-1074)`, the smallest
positive one. Numbers enter by rounding an exact quotient once, to the nearest
value, a tie going to the even one and overflow to infinity, so a decimal
numeral and a product are both correctly rounded. No operation here yields
anything that is not a number, and the values are totally ordered but for the
two zeros, which are equal.
-/

namespace MediaGrouping

/-- A value of the format binary64. -/
inductive Binary64 where
  /-- A sign and a magnitude in units of `2^(-1074)`. -/
  | finite (negative : Bool) (units : Nat)
  | infinite (negative : Bool)
  deriving DecidableEq

namespace Binary64

/-- A power of two. -/
def twoTo (n : Nat) : Nat := Nat.pow 2 n

/-- The whole number nearest to a quotient; a tie goes to the even one. -/
def roundQuotient (num den : Nat) : Nat :=
  let q := num / den
  let r := num % den
  if 2 * r < den then q
  else if den < 2 * r then q + 1
  else if q % 2 = 0 then q
  else q + 1

/-- The number of binary digits of a whole number. -/
def bitLength (n : Nat) : Nat := if n = 0 then 0 else n.log2 + 1

/-- The units of the value nearest to a quotient of units: 53 binary digits are
kept, and all of them where there are fewer. -/
def roundUnits (num den : Nat) : Nat :=
  let excess := bitLength (num / den) - 53
  roundQuotient num (den * twoTo excess) * twoTo excess

/-- The magnitude, in units, at which the format overflows. -/
def overflow : Nat := twoTo 2098

/-- The value nearest to a signed quotient of units. -/
def ofUnits (negative : Bool) (num den : Nat) : Binary64 :=
  let units := roundUnits num den
  if units < overflow then .finite negative units else .infinite negative

/-- The value nearest to a signed quotient. -/
def ofQuotient (negative : Bool) (num den : Nat) : Binary64 :=
  ofUnits negative (num * twoTo 1074) den

/-- The product with a positive quotient, rounded once. -/
def scale (x : Binary64) (num den : Nat) : Binary64 :=
  match x with
  | .finite negative units => ofUnits negative (units * num) den
  | .infinite negative => .infinite negative

/-- Positive zero. -/
def zero : Binary64 := .finite false 0

/-- The largest finite value. -/
def largest : Binary64 := .finite false ((twoTo 53 - 1) * twoTo 2045)

/-- The place of a value in the order of the reals; infinities come last on
either side, and the two zeros share a place. -/
def rank : Binary64 → Int
  | .finite negative units => if negative then -units else units
  | .infinite negative => if negative then -overflow else overflow

/-- Whether a value is smaller than another. -/
def lt (x y : Binary64) : Bool := x.rank < y.rank

/-- The smaller of two values, the first one of equals. -/
def smaller (x y : Binary64) : Binary64 := if y.lt x then y else x

/-- The larger of two values, the first one of equals. -/
def larger (x y : Binary64) : Binary64 := if x.lt y then y else x

/-- The interchange encoding: sign, biased exponent, fraction. -/
def toBits : Binary64 → Nat
  | .finite negative units =>
    let excess := bitLength units - 53
    let sign := if negative then twoTo 63 else 0
    if units < twoTo 52 then sign + units
    else sign + (excess + 1) * twoTo 52 + (units / twoTo excess - twoTo 52)
  | .infinite negative => (if negative then twoTo 63 else 0) + 2047 * twoTo 52

theorem rank_smaller (x y : Binary64) : (smaller x y).rank = min x.rank y.rank := by
  unfold smaller lt
  by_cases h : y.rank < x.rank
  · simp only [h, decide_true, if_true]; omega
  · simp only [h, decide_false]; simp only [Bool.false_eq_true, if_false]; omega

example : (ofQuotient false 1 10).toBits = 0x3fb999999999999a := by decide +kernel
example : (ofQuotient true 1 1).toBits = 0xbff0000000000000 := by decide +kernel
example : (ofQuotient false (Nat.pow 10 400) 1) = .infinite false := by decide +kernel
example : largest.toBits = 0x7fefffffffffffff := by decide +kernel

end Binary64
end MediaGrouping
