/-
# Outside quotes, escapes and parentheses

What the end of a text stands outside of, said by the way the text is built and
without a scan: of escapes of two characters, of quoted texts with their quotes, of
parentheses and of other characters (`Text.Outside`). A closing parenthesis without
an opening one counts for nothing.

The state of a scan says just that (`Text.outside_iff`). For one half, a scan passes
over each of these parts and is outside again. For the other, a text is built from the
left as a scan reads it: each state stands for a text outside and what has been read of
a part since (`Scan.Reached`), and a character more completes the part or goes on with
it (`Scan.Reached.step`).
-/

import MediaGrouping.Proofs.Text.Scan
import Mathlib.Data.List.Induction

namespace MediaGrouping
namespace Text

/-- The quote characters. -/
def IsQuote (c : Char) : Prop := c = '"' ∨ c = '\''

/-- **What may stand in a quote that is still open**: the quote character itself and the
backslash only in an escape. -/
inductive Quoted (quote : Char) : Text → Prop
  | nil : Quoted quote []
  | char {t : Text} {c : Char} (h : Quoted quote t) (hc : c ≠ '\\') (hq : c ≠ quote) :
      Quoted quote (t ++ [c])
  | escape {t : Text} (c : Char) (h : Quoted quote t) : Quoted quote (t ++ ['\\', c])

/-- **The end of a text stands outside quotes and escapes**, with so many parentheses open. -/
inductive Outside : Text → Nat → Prop
  | nil : Outside [] 0
  | char {t : Text} {d : Nat} {c : Char} (h : Outside t d) (hc : Scan.isControl c = false) :
      Outside (t ++ [c]) d
  | escape {t : Text} {d : Nat} (c : Char) (h : Outside t d) : Outside (t ++ ['\\', c]) d
  | quoted {t u : Text} {d : Nat} {quote : Char} (h : Outside t d) (hq : IsQuote quote)
      (hu : Quoted quote u) : Outside (t ++ quote :: u ++ [quote]) d
  | opening {t : Text} {d : Nat} (h : Outside t d) : Outside (t ++ ['(']) (d + 1)
  | closing {t : Text} {d : Nat} (h : Outside t d) : Outside (t ++ [')']) (d - 1)

namespace Scan

variable {s : Scan} {t u : Text} {c quote : Char} {d : Nat}

theorem step_open_quote (hq : IsQuote quote) :
    step ⟨.plain, d⟩ quote = ⟨.quoted quote, d⟩ := by
  rcases hq with rfl | rfl <;> rfl

theorem step_in_quote (hc : c ≠ '\\') (hq : c ≠ quote) :
    step ⟨.quoted quote, d⟩ c = ⟨.quoted quote, d⟩ := by
  simp [step, hc, hq]

theorem step_close_quote (hq : IsQuote quote) :
    step ⟨.quoted quote, d⟩ quote = ⟨.plain, d⟩ := by
  rcases hq with rfl | rfl <;> rfl

/-- A scan does not leave a quote before the quote character. -/
theorem run_quoted (hu : Quoted quote u) : run ⟨.quoted quote, d⟩ u = ⟨.quoted quote, d⟩ := by
  induction hu with
  | nil => rfl
  | char _ hc hq ih => rw [run_append, ih, run_cons, step_in_quote hc hq, run_nil]
  | escape c _ ih => rw [run_append, ih]; rfl

/-- **A scan is outside where the text is.** -/
theorem run_of_outside (h : Outside t d) : start.run t = ⟨.plain, d⟩ := by
  induction h with
  | nil => rfl
  | @char _ d _ _ hc ih =>
    have hsound : Sound ⟨.plain, d⟩ := trivial
    rw [run_append, ih, run_cons, step_of_inert hsound hc]
    rfl
  | escape c _ ih => rw [run_append, ih]; rfl
  | quoted _ hq hu ih =>
    rw [run_append, run_append, ih, run_cons, run_cons, run_nil, step_open_quote hq,
      run_quoted hu, step_close_quote hq]
  | opening _ ih => rw [run_append, ih]; rfl
  | closing _ ih => rw [run_append, ih]; rfl

/-- **What a scan has read** when it is in a state: a text outside, and what has begun there. -/
def Reached (t : Text) (s : Scan) : Prop :=
  match s.mode with
  | .plain => Outside t s.depth
  | .escaped => ∃ u, Outside u s.depth ∧ t = u ++ ['\\']
  | .quoted quote => ∃ u v, Outside u s.depth ∧ IsQuote quote ∧ Quoted quote v ∧
      t = u ++ quote :: v
  | .quotedEscaped quote => ∃ u v, Outside u s.depth ∧ IsQuote quote ∧ Quoted quote v ∧
      t = u ++ quote :: v ++ ['\\']

/-- **Each character completes what has begun, or goes on with it.** -/
theorem Reached.step (h : Reached t s) (c : Char) : Reached (t ++ [c]) (s.step c) := by
  obtain ⟨mode, d⟩ := s
  cases mode with
  | plain =>
    have h : Outside t d := h
    rw [Scan.step]
    dsimp only
    split_ifs with hb hq ho hc
    · exact ⟨t, h, by rw [hb]⟩
    · exact ⟨t, [], h, hq, .nil, rfl⟩
    · exact ho ▸ h.opening
    · exact hc ▸ h.closing
    · exact h.char (isControl_eq_false (by simp [hb, not_or.1 hq, ho, hc]))
  | escaped =>
    obtain ⟨u, hu, rfl⟩ := h
    rw [List.append_assoc]
    exact hu.escape c
  | quoted quote =>
    obtain ⟨u, v, hu, hq, hv, rfl⟩ := h
    rw [Scan.step]
    dsimp only
    split_ifs with hb he
    · exact ⟨u, v, hu, hq, hv, by rw [hb]⟩
    · rw [he]
      exact hu.quoted hq hv
    · exact ⟨u, v ++ [c], hu, hq, hv.char hb he, by simp⟩
  | quotedEscaped quote =>
    obtain ⟨u, v, hu, hq, hv, rfl⟩ := h
    exact ⟨u, v ++ ['\\', c], hu, hq, hv.escape c, by simp⟩

/-- **A scan has read what its state stands for.** -/
theorem reached_run (t : Text) : Reached t (start.run t) := by
  induction t using List.reverseRecOn with
  | nil => exact Outside.nil
  | append_singleton t c ih => rw [run_append]; exact ih.step c

end Scan

variable {t : Text} {d : Nat}

/-- **A scan knows what it is outside of.** -/
theorem outside_iff : Outside t d ↔ Scan.start.run t = ⟨.plain, d⟩ := by
  refine ⟨Scan.run_of_outside, fun h => ?_⟩
  have hr := Scan.reached_run t
  rwa [h] at hr

instance (t : Text) (d : Nat) : Decidable (Outside t d) := decidable_of_iff _ outside_iff.symm

end Text
end MediaGrouping
