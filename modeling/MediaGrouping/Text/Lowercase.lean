/-
# Lower case

The full lower case form of a text. Characters are lowered one by one from the
table, with two exceptions of the Unicode standard: `İ` becomes `i` and a
combining dot, and `Σ` becomes `ς` at the end of a word and `σ` elsewhere. A
sigma ends a word when, case-ignorable characters aside, a cased character
stands before it and none after it. Of the ASCII characters only the letters `A`
to `Z` change, whatever stands around them (`lowercaseAfter_append_of_ascii`).
-/

import MediaGrouping.Text.Casing
import MediaGrouping.Text.LowerTable

namespace MediaGrouping
namespace Text

/-- Whether the first character that is not case-ignorable is cased. -/
def startsCased (t : Text) : Bool :=
  match t.dropWhile isCaseIgnorable with
  | [] => false
  | c :: _ => isCased c

/-- The lower case form of a character, its neighbours aside. -/
def lowerChar (c : Char) : Text :=
  if c = 'İ' then ['i', '\u0307'] else [Char.ofNat (lowerCode c.toNat caseRows)]

/-- The lower case form of a text of which `before` has been passed, its last
character first. -/
def lowercaseAfter (before : Text) : Text → Text
  | [] => []
  | c :: rest =>
    let lowered :=
      if c = 'Σ' then
        if startsCased before && !startsCased rest then ['ς'] else ['σ']
      else lowerChar c
    lowered ++ lowercaseAfter (c :: before) rest

/-- The lower case form of a text. -/
def lowercase (t : Text) : Text := lowercaseAfter [] t

example : lowercase ['Ο', 'Σ', ' ', 'Σ', 'Α'] = ['ο', 'ς', ' ', 'σ', 'α'] := by decide +kernel

/-- **An ASCII character is lowered alone**, and only the letters `A` to `Z` are changed. -/
theorem lowerChar_of_ascii {c : Char} (h : c.toNat < 128) : lowerChar c = [c.toLower] := by
  have hall : ∀ n < 128, lowerChar (Char.ofNat n) = [(Char.ofNat n).toLower] := by decide +kernel
  have hc := hall c.toNat h
  rwa [Char.ofNat_toNat] at hc

theorem ascii_of_toLower {c : Char} (h : c.toLower.toNat < 128) : c.toNat < 128 := by
  unfold Char.toLower at h
  split at h
  · next hupper => exact Nat.lt_of_le_of_lt hupper.2 (by decide)
  · exact h

/-- **ASCII characters are lowered where they stand**, whatever stands around them. -/
theorem lowercaseAfter_append_of_ascii {u : Text} (hu : ∀ c ∈ u, c.toNat < 128)
    (before t : Text) : lowercaseAfter before (u ++ t)
      = u.map Char.toLower ++ lowercaseAfter (u.reverse ++ before) t := by
  induction u generalizing before with
  | nil => rfl
  | cons c u ih =>
    rw [List.forall_mem_cons] at hu
    have hne : c ≠ 'Σ' := fun hc => absurd hu.1 (by rw [hc]; decide)
    rw [List.cons_append, lowercaseAfter]
    simp only [if_neg hne]
    rw [lowerChar_of_ascii hu.1, ih hu.2]
    simp

/-- **The lower case form of an ASCII text** is that of its letters. -/
theorem lowercase_of_ascii {t : Text} (ht : ∀ c ∈ t, c.toNat < 128) :
    lowercase t = t.map Char.toLower := by
  have h := lowercaseAfter_append_of_ascii ht [] []
  rwa [List.append_nil, lowercaseAfter, List.append_nil] at h

end Text
end MediaGrouping
