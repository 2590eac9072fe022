/-
# Positions and offsets

The position of a character is kept up to date from character to character. What it tells is the
number of line feeds before the character, and the number of characters since the last of these
(`Position.advance_start`). Positions grow along a text (`Position.Before`), so that a position
denotes at most one character of it (`Position.Denotes.unique`). Behind another text, a position
moves down by the line feeds of that text, and on the first line also to the right
(`Position.behind`).
-/

import MediaGrouping.Sheet.Position
import Mathlib.Data.List.DropRight
import Mathlib.Tactic.SplitIfs

namespace MediaGrouping

namespace Text

/-- What a text has after its last line feed. -/
def lastLine (t : Text) : Text := t.rtakeWhile (· != '\n')

theorem lastLine_concat (t : Text) (c : Char) :
    lastLine (t ++ [c]) = if c = '\n' then [] else lastLine t ++ [c] := by
  unfold lastLine
  rw [List.rtakeWhile_concat]
  split_ifs <;> simp_all

end Text

namespace Position

variable {p q r : Position} {t u : Text} {k j : Nat}

/-- **A position tells the line feeds before a character**, and the characters since the last of
these, both counted from one. -/
theorem advance_start (t : Text) :
    start.advance t = ⟨1 + t.count '\n', 1 + (Text.lastLine t).length⟩ := by
  induction t using List.reverseRecOn with
  | nil => rfl
  | append_singleton t c ih =>
    rw [advance_append, ih, advance_cons, advance_nil, step, Text.lastLine_concat,
      List.count_append, List.count_singleton]
    by_cases hc : c = '\n'
    · simp [hc, Nat.add_assoc]
    · simp [hc, Nat.add_assoc]

/-- Whether a position comes before another. -/
def Before (p q : Position) : Prop := p.line < q.line ∨ p.line = q.line ∧ p.column < q.column

theorem Before.trans (h : p.Before q) (h' : q.Before r) : p.Before r := by
  unfold Before at *
  omega

theorem Before.ne (h : p.Before q) : p ≠ q := by
  rintro rfl
  unfold Before at h
  omega

theorem before_step (p : Position) (c : Char) : p.Before (p.step c) := by
  unfold Before step
  split_ifs
  · exact .inl (Nat.lt_succ_self _)
  · exact .inr ⟨rfl, Nat.lt_succ_self _⟩

/-- **Positions grow along a text.** -/
theorem before_advance (p : Position) (hne : t ≠ []) : p.Before (p.advance t) := by
  induction t generalizing p with
  | nil => exact absurd rfl hne
  | cons c t ih =>
    by_cases ht : t = []
    · rw [ht]
      exact before_step p c
    · exact (before_step p c).trans (ih _ ht)

/-- **The character that a position denotes** is the one with as many line feeds before it as the
line says, and as many characters since the last of these as the column says, both from one. -/
structure Denotes (t : Text) (p : Position) (k : Nat) : Prop where
  lt : k < t.length
  line : p.line = 1 + (t.take k).count '\n'
  column : p.column = 1 + (Text.lastLine (t.take k)).length

theorem denotes_iff : Denotes t p k ↔ k < t.length ∧ p = start.advance (t.take k) := by
  rw [advance_start]
  constructor
  · rintro ⟨hk, hl, hc⟩
    exact ⟨hk, by rw [← hl, ← hc]⟩
  · rintro ⟨hk, rfl⟩
    exact ⟨hk, rfl, rfl⟩

theorem before_of_lt (hj : k ≤ t.length) (hlt : j < k) :
    (start.advance (t.take j)).Before (start.advance (t.take k)) := by
  have hsplit : t.take k = t.take j ++ (t.drop j).take (k - j) := by
    rw [← List.take_add]
    congr 1
    omega
  have hne : (t.drop j).take (k - j) ≠ [] := by
    rw [← List.length_pos_iff, List.length_take, List.length_drop]
    omega
  rw [hsplit, advance_append]
  exact before_advance _ hne

/-- **A position denotes at most one character of a text.** -/
theorem Denotes.unique (h : Denotes t p j) (h' : Denotes t p k) : j = k := by
  obtain ⟨hj, rfl⟩ := denotes_iff.1 h
  obtain ⟨hk, he⟩ := denotes_iff.1 h'
  rcases Nat.lt_trichotomy j k with hlt | rfl | hlt
  · exact absurd he (before_of_lt hk.le hlt).ne
  · rfl
  · exact absurd he.symm (before_of_lt hj.le hlt).ne

/-- **A position behind another text**: that text's line feeds come on top of the line, and on the
first line the characters of its last line come on top of the column. -/
def behind (u : Text) (p : Position) : Position :=
  ⟨u.count '\n' + p.line, if p.line = 1 then (Text.lastLine u).length + p.column else p.column⟩

theorem behind_start (u : Text) : behind u start = start.advance u := by
  rw [advance_start, behind]
  simp [start, Nat.add_comm]

theorem behind_step (u : Text) (hp : 1 ≤ p.line) (c : Char) :
    behind u (p.step c) = (behind u p).step c := by
  have hline : p.line ≠ 0 := by omega
  unfold behind step
  by_cases hc : c = '\n'
  · simp [hc, hline, Nat.add_assoc]
  · by_cases hl : p.line = 1 <;> simp [hc, hl, Nat.add_assoc]

theorem one_le_line_step (hp : 1 ≤ p.line) (c : Char) : 1 ≤ (p.step c).line := by
  unfold step
  split_ifs
  · exact Nat.le_add_left 1 _
  · exact hp

end Position
end MediaGrouping
