/-
# Texts that a scan passes over

The span of a text is what comes before the first stop (`Scan.span`). A scan passes
over a text if no character of it is a stop (`Scan.Passes`); it then goes on with what
follows in the state reached there (`Scan.span_append_of_passes`). A text is closed if a
scan passes over it and is back at the start afterwards (`Scan.Closed`), so that a stop
right after it is seen (`Scan.Closed.span`). A stop behind any text ends the span there
or is passed over, whatever follows it (`Scan.span_append_stop`).

Characters that do not steer the scan only end an escape (`Scan.step_of_inert`), so
that one of them does as well as many: how many blanks stand somewhere makes no
difference, but whether there are any may.
-/

import MediaGrouping.Proofs.Text.Blank
import MediaGrouping.Text.Scan
import Mathlib.Tactic.SplitIfs

namespace MediaGrouping
namespace Text
namespace Scan

variable {stops : List Char} {s : Scan} {t u b : Text} {c : Char}

/-- The text up to the first character that stops the scan, and the rest. -/
def span (stops : List Char) (s : Scan) : Text → Text × Text
  | [] => ([], [])
  | c :: rest =>
    if s.stopsAt stops c then ([], c :: rest)
    else
      let (passed, left) := span stops (s.step c) rest
      (c :: passed, left)

/-- **A span loses nothing.** -/
theorem span_append (stops : List Char) (s : Scan) (t : Text) :
    (span stops s t).1 ++ (span stops s t).2 = t := by
  induction t generalizing s with
  | nil => rfl
  | cons c rest ih =>
    unfold span
    split
    · rfl
    · simp [ih (s.step c)]

/-- **A span ends before a stop:** the rest begins with a character that stops
the scan in the state reached there. -/
theorem stopsAt_of_span {stops : List Char} {s : Scan} {t : Text} {c : Char} {rest : Text}
    (h : (span stops s t).2 = c :: rest) :
    (s.run (span stops s t).1).stopsAt stops c = true := by
  induction t generalizing s with
  | nil => simp [span] at h
  | cons d t ih =>
    unfold span at h ⊢
    split at h
    · next hd =>
      obtain ⟨rfl, rfl⟩ := List.cons.inj h
      simp [hd]
    · next hd =>
      simp only [hd]
      exact ih h

/-- A scan passes over a text without a stop. -/
def Passes (stops : List Char) (s : Scan) (t : Text) : Prop := (span stops s t).2 = []

/-- **A closed text**: a scan from the start passes over it and ends outside every
quote, escape and parenthesis. -/
structure Closed (stops : List Char) (t : Text) : Prop where
  passes : Passes stops start t
  run : start.run t = start

instance (stops : List Char) (s : Scan) (t : Text) : Decidable (Passes stops s t) :=
  inferInstanceAs (Decidable ((span stops s t).2 = []))

instance (stops : List Char) (t : Text) : Decidable (Closed stops t) :=
  decidable_of_iff (Passes stops start t ∧ start.run t = start)
    ⟨fun h => ⟨h.1, h.2⟩, fun h => ⟨h.1, h.2⟩⟩

/-- The quotes that a scan is in are quote characters. -/
def Sound (s : Scan) : Prop :=
  match s.mode with
  | .quoted quote | .quotedEscaped quote => isControl quote = true
  | _ => True

/-- The state once an escape has ended. -/
def settle (s : Scan) : Scan :=
  match s.mode with
  | .escaped => { s with mode := .plain }
  | .quotedEscaped quote => { s with mode := .quoted quote }
  | _ => s

theorem isTop_iff : s.isTop = true ↔ s = start := by
  obtain ⟨mode, depth⟩ := s
  simp [isTop, start]

/-- **A stop** is one of the stops, at the top level. -/
theorem stopsAt_iff :
    s.stopsAt stops c = true ↔ s = start ∧ isControl c = false ∧ c ∈ stops := by
  rw [stopsAt, Bool.and_eq_true, Bool.and_eq_true, isTop_iff, Bool.not_eq_true',
    List.contains_iff_mem, and_assoc]

@[simp] theorem passes_nil : Passes stops s [] := rfl

theorem passes_cons :
    Passes stops s (c :: t) ↔ s.stopsAt stops c = false ∧ Passes stops (s.step c) t := by
  rw [Passes, span, Passes]
  cases h : s.stopsAt stops c <;> simp

/-- **A scan passes over two texts** if it passes over the first, and over the second
from there. -/
theorem passes_append :
    Passes stops s (t ++ u) ↔ Passes stops s t ∧ Passes stops (s.run t) u := by
  induction t generalizing s with
  | nil => simp
  | cons c t ih => rw [List.cons_append, passes_cons, passes_cons, ih, run_cons, and_assoc]

/-- **A scan goes on after what it passes over.** -/
theorem span_append_of_passes (h : Passes stops s t) (u : Text) :
    span stops s (t ++ u) = (t ++ (span stops (s.run t) u).1, (span stops (s.run t) u).2) := by
  induction t generalizing s with
  | nil => rfl
  | cons c t ih =>
    obtain ⟨hc, ht⟩ := passes_cons.1 h
    rw [List.cons_append, span, if_neg (by simp [hc]), ih ht]
    rfl

theorem span_isPrefix (stops : List Char) (s : Scan) (t : Text) : (span stops s t).1 <+: t :=
  ⟨_, span_append stops s t⟩

/-- A scan passes over what its span is. -/
theorem passes_span (stops : List Char) (s : Scan) (t : Text) :
    Passes stops s (span stops s t).1 := by
  induction t generalizing s with
  | nil => exact passes_nil
  | cons c t ih =>
    rw [span]
    split_ifs with hc
    · exact passes_nil
    · exact passes_cons.2 ⟨Bool.eq_false_iff.2 hc, ih (s.step c)⟩

/-- Where a span ends before a character, the state is the one of the start. -/
theorem run_span {left : Text} (h : (span stops s t).2 = c :: left) :
    s.run (span stops s t).1 = start :=
  (stopsAt_iff.1 (stopsAt_of_span h)).1

/-- **A span that ends before a character is closed.** -/
theorem closed_of_span {u left : Text} (h : span stops start t = (u, c :: left)) :
    Closed stops u := by
  have hpasses := passes_span stops start t
  have hrun := run_span (congrArg Prod.snd h)
  rw [h] at hpasses hrun
  exact ⟨hpasses, hrun⟩

/-- **The span of a closed text ends at a stop right after it.** -/
theorem Closed.span (h : Closed stops t) (hc : isControl c = false) (hs : c ∈ stops) (u : Text) :
    Scan.span stops start (t ++ c :: u) = (t, c :: u) := by
  have hstop : start.stopsAt stops c = true := stopsAt_iff.2 ⟨rfl, hc, hs⟩
  rw [span_append_of_passes h.passes, h.run, Scan.span, if_pos hstop, List.append_nil]

/-- **A character behind which the scan is not at the start is not seen as a stop.** -/
theorem span_of_run_ne (h : Passes stops s t) (hrun : s.run t ≠ start) (c : Char) (u : Text) :
    t ++ [c] <+: (span stops s (t ++ c :: u)).1 := by
  have hstop : ¬ (s.run t).stopsAt stops c = true := fun hc => hrun (stopsAt_iff.1 hc).1
  rw [span_append_of_passes h, span, if_neg hstop]
  exact ⟨_, by rw [List.append_assoc, List.singleton_append]⟩

/-- A span that ends before a stop is the same with more text behind. -/
theorem span_append_of_not_passes (h : ¬ Passes stops s t) (u : Text) :
    span stops s (t ++ u) = ((span stops s t).1, (span stops s t).2 ++ u) := by
  induction t generalizing s with
  | nil => exact absurd passes_nil h
  | cons c t ih =>
    rw [List.cons_append, span, span]
    by_cases hc : s.stopsAt stops c = true
    · rw [if_pos hc, if_pos hc]
      rfl
    · rw [if_neg hc, if_neg hc, ih fun ht => h (passes_cons.2 ⟨Bool.eq_false_iff.2 hc, ht⟩)]

/-- **A stop behind a text** is no part of the span and leaves it as it is, or it is passed over,
whatever follows it. -/
theorem span_append_stop (hc : isControl c = false) (hs : c ∈ stops) (t : Text) :
    (∀ u, span stops start (t ++ c :: u)
        = ((span stops start t).1, (span stops start t).2 ++ c :: u)) ∨
      ∀ u, t ++ [c] <+: (span stops start (t ++ c :: u)).1 := by
  by_cases hp : Passes stops start t
  · by_cases hrun : start.run t = start
    · have hnone : (span stops start t).2 = [] := hp
      have hall : (span stops start t).1 = t := by
        conv_rhs => rw [← span_append stops start t, hnone, List.append_nil]
      refine .inl fun u => ?_
      rw [hall, hnone, Closed.span ⟨hp, hrun⟩ hc hs]
      rfl
    · exact .inr (span_of_run_ne hp hrun c)
  · exact .inl fun u => span_append_of_not_passes hp (c :: u)

/-! ### Characters that do not steer the scan -/

theorem isControl_eq_false (h : c ∉ ['\\', '"', '\'', '(', ')']) : isControl c = false := by
  simp only [List.mem_cons, List.not_mem_nil, or_false, not_or] at h
  simp [isControl, h]

theorem isControl_of_blank (h : isBlank c = true) : isControl c = false := by
  refine isControl_eq_false fun hm => ?_
  simp only [List.mem_cons, List.not_mem_nil, or_false] at hm
  rcases hm with rfl | rfl | rfl | rfl | rfl <;> cases h

@[simp] theorem settle_settle (s : Scan) : s.settle.settle = s.settle := by
  obtain ⟨mode, depth⟩ := s
  cases mode <;> rfl

@[simp] theorem settle_start : start.settle = start := rfl

theorem sound_start : start.Sound := trivial

theorem Sound.settle (h : s.Sound) : s.settle.Sound := by
  obtain ⟨mode, depth⟩ := s
  cases mode <;> exact h

theorem Sound.step (h : s.Sound) (c : Char) : (s.step c).Sound := by
  obtain ⟨mode, depth⟩ := s
  cases mode with
  | plain =>
    rw [Scan.step]
    dsimp only
    split_ifs with _ hq
    · exact trivial
    · rcases hq with rfl | rfl <;> rfl
    all_goals exact trivial
  | escaped => exact trivial
  | quoted quote =>
    rw [Scan.step]
    dsimp only
    split_ifs
    · exact h
    · exact trivial
    · exact h
  | quotedEscaped quote => exact h

theorem Sound.run (h : s.Sound) (t : Text) : (s.run t).Sound := by
  induction t generalizing s with
  | nil => exact h
  | cons c t ih => exact ih (h.step c)

/-- **A character that does not steer the scan only ends an escape.** -/
theorem step_of_inert (h : s.Sound) (hc : isControl c = false) : s.step c = s.settle := by
  obtain ⟨mode, depth⟩ := s
  have hne : ∀ d, isControl d = true → c ≠ d := fun d hd he => by
    rw [← he, hc] at hd
    cases hd
  cases mode with
  | escaped => rfl
  | quotedEscaped quote => rfl
  | plain =>
    simp [Scan.step, settle, hne '\\' rfl, hne '"' rfl, hne '\'' rfl, hne '(' rfl, hne ')' rfl]
  | quoted quote => simp [Scan.step, settle, hne '\\' rfl, hne quote h]

/-- Behind a stop the scan is at the start again. -/
theorem step_of_stopsAt (h : s.stopsAt stops c = true) : s.step c = start := by
  obtain ⟨rfl, hc, -⟩ := stopsAt_iff.1 h
  rw [step_of_inert sound_start hc, settle_start]

/-- One character that does not steer the scan does as well as many. -/
theorem run_of_inert (h : s.Sound) (ht : ∀ d ∈ t, isControl d = false) (hne : t ≠ []) :
    s.run t = s.settle := by
  induction t generalizing s with
  | nil => exact absurd rfl hne
  | cons c t ih =>
    rw [List.forall_mem_cons] at ht
    have hc : s.step c = s.settle := step_of_inert h ht.1
    rw [run_cons, hc]
    by_cases hnil : t = []
    · rw [hnil, run_nil]
    · rw [ih h.settle ht.2 hnil, settle_settle]

theorem settle_run_of_inert (h : s.Sound) (ht : ∀ d ∈ t, isControl d = false) :
    (s.run t).settle = s.settle := by
  by_cases hnil : t = []
  · rw [hnil, run_nil]
  · rw [run_of_inert h ht hnil, settle_settle]

/-- A scan passes over characters none of which is a stop. -/
theorem passes_of_all (ht : t.all (· ∉ stops) = true) : Passes stops s t := by
  induction t generalizing s with
  | nil => exact passes_nil
  | cons c t ih =>
    rw [List.all_cons, Bool.and_eq_true, decide_eq_true_eq] at ht
    refine passes_cons.2 ⟨Bool.eq_false_iff.2 fun hc => ht.1 (stopsAt_iff.1 hc).2.2, ih ht.2⟩

/-! ### Blanks -/

theorem inert_of_blank (h : Blank b) : ∀ d ∈ b, isControl d = false :=
  fun d hd => isControl_of_blank (h d hd)

/-- Blanks leave the scan where it is, unless it is in an escape. -/
theorem run_of_blank (hs : s.Sound) (h : s.settle = s) (hb : Blank b) : s.run b = s := by
  by_cases hnil : b = []
  · rw [hnil, run_nil]
  · rw [run_of_inert hs (inert_of_blank hb) hnil, h]

/-- **Trimming may only cut the end of an escape.** -/
theorem settle_run_trim (hs : s.Sound) (h : s.settle = s) (t : Text) :
    (s.run (trim t)).settle = (s.run t).settle := by
  obtain ⟨b, b', hb, hb', ht⟩ := exists_trim t
  conv_rhs => rw [ht]
  rw [run_append, run_append, run_of_blank hs h hb,
    settle_run_of_inert (hs.run _) (inert_of_blank hb')]

/-- What a scan passes over it passes over trimmed. -/
theorem Passes.trim (hp : Passes stops s t) (hs : s.Sound) (h : s.settle = s) :
    Passes stops s (trim t) := by
  obtain ⟨b, b', hb, -, ht⟩ := exists_trim t
  rw [ht, passes_append, passes_append, run_of_blank hs h hb] at hp
  exact hp.1.2

/-- What a scan passes over it passes over from the beginning. -/
theorem Passes.of_isPrefix (hp : Passes stops s t) (hu : u <+: t) : Passes stops s u := by
  obtain ⟨rest, rfl⟩ := hu
  exact (passes_append.1 hp).1

end Scan
end Text
end MediaGrouping
