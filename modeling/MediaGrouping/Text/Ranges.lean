/-
# Sets of characters as ranges

A character class of the Unicode standard is an ascending list of closed
ranges of code points. Looking a character up stops at the first range that
begins after it, which is right because the ranges ascend.
-/

import MediaGrouping.Text.Basic

namespace MediaGrouping
namespace Text

/-- Closed ranges of code points, first and last, in ascending order. -/
abbrev Ranges := List (Nat × Nat)

/-- Whether a code point lies in one of the ranges. -/
def Ranges.covers : Ranges → Nat → Bool
  | [], _ => false
  | (first, last) :: rest, n =>
    if n < first then false else n ≤ last || Ranges.covers rest n

/-- Whether a character's code point lies in one of the ranges. -/
def Ranges.holds (ranges : Ranges) (c : Char) : Bool := ranges.covers c.toNat

/-- **Only the ranges count:** a covered code point lies in a range of the list. -/
theorem Ranges.exists_of_covers {ranges : Ranges} {n : Nat} (h : ranges.covers n = true) :
    ∃ r ∈ ranges, r.1 ≤ n ∧ n ≤ r.2 := by
  induction ranges with
  | nil => simp [Ranges.covers] at h
  | cons r rest ih =>
    obtain ⟨first, last⟩ := r
    unfold Ranges.covers at h
    split at h
    · simp at h
    · rcases Bool.or_eq_true_iff.1 h with h | h
      · exact ⟨(first, last), by simp, by omega, by simpa using h⟩
      · obtain ⟨r, hr, hn⟩ := ih h
        exact ⟨r, by simp [hr], hn⟩

end Text
end MediaGrouping
