/-
# Rounding and products

Rounding a quotient depends on its value alone (`roundUnits_congr`). What it gives is a
value of the format, with 53 binary digits at most and zeros behind them
(`exact_roundUnits`), and such a value is its own rounding (`roundUnits_of_exact`). So no
value changes when it is scaled by one (`Representable.scale_one`).

The product of two values is the exact product, rounded once, but for an infinity and a
zero, which have none (`times?`). To scale a value by a positive quotient that is a value of
the format is to take the product with it (`times?_of_exact`).
-/

import MediaGrouping.Number.Binary64
import Mathlib.Tactic.SplitIfs

namespace MediaGrouping
namespace Binary64

variable {num den num' den' k n m e : Nat} {x : Binary64}

theorem twoTo_add (m n : Nat) : twoTo (m + n) = twoTo m * twoTo n := Nat.pow_add 2 m n

theorem twoTo_pos (n : Nat) : 0 < twoTo n := Nat.two_pow_pos n

theorem bitLength_le_iff : bitLength n ≤ k ↔ n < twoTo k := by
  unfold bitLength
  split_ifs with h
  · simp [h, twoTo_pos]
  · exact Nat.log2_lt h

/-! ### Rounding -/

theorem roundQuotient_mul_right (hk : 0 < k) :
    roundQuotient (num * k) (den * k) = roundQuotient num den := by
  have hlt : ∀ a b : Nat, a * k < b * k ↔ a < b := fun a b => Nat.mul_lt_mul_right hk
  unfold roundQuotient
  rw [Nat.mul_div_mul_right _ _ hk, Nat.mul_mod_mul_right]
  simp only [← Nat.mul_assoc, hlt]

theorem roundUnits_mul_right (hk : 0 < k) :
    roundUnits (num * k) (den * k) = roundUnits num den := by
  unfold roundUnits
  dsimp only
  rw [Nat.mul_div_mul_right _ _ hk, Nat.mul_right_comm, roundQuotient_mul_right hk]

/-- **Rounding depends on the value of the quotient alone.** -/
theorem roundUnits_congr (hden : 0 < den) (hden' : 0 < den') (h : num * den' = num' * den) :
    roundUnits num den = roundUnits num' den' := by
  rw [← roundUnits_mul_right hden', h, Nat.mul_comm den, roundUnits_mul_right hden]

/-- The nearest whole number is at most one more than the whole part. -/
theorem roundQuotient_le (num den : Nat) : roundQuotient num den ≤ num / den + 1 := by
  unfold roundQuotient
  dsimp only
  split_ifs <;> omega

theorem roundQuotient_mul (n : Nat) (hk : 0 < k) : roundQuotient (n * k) k = n := by
  unfold roundQuotient
  dsimp only
  rw [Nat.mul_mod_left, Nat.mul_div_cancel _ hk, if_pos (by omega)]

/-- Units that a value of the format may have: 53 binary digits, and zeros behind them. -/
def Exact (units : Nat) : Prop := ∃ m e, m < twoTo 53 ∧ units = m * twoTo e

/-- **What rounding gives is a value of the format**, overflow aside. -/
theorem exact_roundUnits (num den : Nat) : Exact (roundUnits num den) := by
  unfold roundUnits
  dsimp only
  generalize hx : bitLength (num / den) - 53 = x
  have hlt : num / den < twoTo 53 * twoTo x := by
    rw [← twoTo_add, ← bitLength_le_iff]
    omega
  have hq : num / (den * twoTo x) < twoTo 53 := by
    rw [← Nat.div_div_eq_div_mul]
    exact (Nat.div_lt_iff_lt_mul (twoTo_pos x)).2 hlt
  have hle := roundQuotient_le num (den * twoTo x)
  rcases Nat.lt_or_eq_of_le (Nat.le_trans hle hq) with h | h
  · exact ⟨_, x, h, rfl⟩
  · -- rounding up may need a digit more, and then there is only one
    exact ⟨1, 53 + x, by decide, by rw [h, Nat.one_mul, twoTo_add]⟩

/-- **A value of the format is its own rounding.** -/
theorem roundUnits_of_exact (h : Exact n) : roundUnits n 1 = n := by
  obtain ⟨m, e, hm, rfl⟩ := h
  unfold roundUnits
  dsimp only
  rw [Nat.div_one, Nat.one_mul]
  generalize hx : bitLength (m * twoTo e) - 53 = x
  have hlen : bitLength (m * twoTo e) ≤ 53 + e := by
    rw [bitLength_le_iff, twoTo_add]
    exact Nat.mul_lt_mul_of_pos_right hm (twoTo_pos e)
  have he : m * twoTo e = m * twoTo (e - x) * twoTo x := by
    rw [Nat.mul_assoc, ← twoTo_add, Nat.sub_add_cancel (by omega)]
  rw [he, roundQuotient_mul _ (twoTo_pos x)]

/-- **A value of the format**: an infinity, or units it may have, below overflow. -/
inductive Representable : Binary64 → Prop
  | finite (negative : Bool) {units : Nat} (hexact : Exact units) (hlt : units < overflow) :
      Representable (.finite negative units)
  | infinite (negative : Bool) : Representable (.infinite negative)

theorem ofUnits_eq (negative : Bool) (num den : Nat) : ofUnits negative num den =
    if roundUnits num den < overflow then .finite negative (roundUnits num den)
    else .infinite negative := rfl

theorem representable_ofUnits (negative : Bool) (num den : Nat) :
    Representable (ofUnits negative num den) := by
  rw [ofUnits_eq]
  split_ifs with h
  · exact .finite negative (exact_roundUnits num den) h
  · exact .infinite negative

theorem Representable.scale_one (h : Representable x) : x.scale 1 1 = x := by
  cases h with
  | finite negative hexact hlt =>
    rw [scale, ofUnits_eq, Nat.mul_one, roundUnits_of_exact hexact, if_pos hlt]
  | infinite negative => rfl

/-! ### Products -/

/-- **The product of two values**, rounded once. An infinity and a zero have none. -/
def times? : Binary64 → Binary64 → Option Binary64
  | .finite s a, .finite t b => some (ofUnits (s != t) (a * b) (twoTo 1074))
  | .finite s a, .infinite t => if a = 0 then none else some (.infinite (s != t))
  | .infinite s, .finite t b => if b = 0 then none else some (.infinite (s != t))
  | .infinite s, .infinite t => some (.infinite (s != t))

/-- **Scaling is a product**, the factor being a positive value of the format. -/
theorem times?_of_exact {units : Nat} (hden : 0 < den) (hpos : 0 < units)
    (h : units * den = num * twoTo 1074) (x : Binary64) :
    x.times? (.finite false units) = some (x.scale num den) := by
  cases x with
  | finite negative a =>
    have hquot : a * units * den = a * num * twoTo 1074 := by
      rw [Nat.mul_assoc, h, Nat.mul_assoc]
    rw [times?, scale, ofUnits_eq, ofUnits_eq, roundUnits_congr (twoTo_pos _) hden hquot,
      Bool.bne_false]
  | infinite negative => rw [times?, if_neg (Nat.ne_of_gt hpos), Bool.bne_false]; rfl

end Binary64
end MediaGrouping
