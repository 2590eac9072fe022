/-
# Where headers and declarations end

A header or a declaration is read with look-ahead, keeping the open quote and counting
parentheses, while lists are split by a scan, whose states know of escapes too. The two
agree: what is read is the span of the scan up to the first stop
(`Segment.prelude_eq_span`), because what the reader keeps is a state of the scan outside
escapes (`Segment.step_reading`), and a backslash with the character after it leads back to
that state (`Segment.span_escape`). To the splitter of lists, what is read is therefore one
item, and the character behind it a separator (`Segment.prelude_splits`).
-/

import MediaGrouping.Proofs.Text.Splitting
import MediaGrouping.Sheet.Lexeme

namespace MediaGrouping
namespace Segment

open Text (Scan)

variable {quote : Option Char} {depth : Nat} {c : Char}

/-- The state of a scan where a quote may be open and `depth` parentheses are. -/
def reading (quote : Option Char) (depth : Nat) : Scan :=
  match quote with
  | none => ⟨.plain, depth⟩
  | some opened => ⟨.quoted opened, depth⟩

/-- The reader stops where the scan does. -/
theorem stopsAt_reading :
    (reading quote depth).stopsAt stops c = endsAt quote depth c := by
  have hcontrol : (!Scan.isControl c && stops.contains c) = stops.contains c := by
    rw [Bool.and_eq_right_iff_imp]
    intro hc
    simp only [stops, List.contains_cons, List.contains_nil, Bool.or_false, Bool.or_eq_true,
      beq_iff_eq] at hc
    rcases hc with rfl | rfl | rfl <;> rfl
  rw [Scan.stopsAt, Bool.and_assoc, hcontrol]
  cases quote <;> rfl

/-- **The reader goes on as the scan does** with a character that is not escaped. -/
theorem step_reading (hc : c ≠ '\\') :
    (reading quote depth).step c = reading (quoteAfter quote c) (depthAfter quote depth c) := by
  cases quote with
  | some opened =>
    simp only [reading, Scan.step, if_neg hc, quoteAfter, depthAfter]
    split_ifs <;> rfl
  | none =>
    simp only [reading, Scan.step, if_neg hc, quoteAfter, depthAfter]
    split_ifs with hq ho hcl ho hcl
    · rcases hq with rfl | rfl <;> cases ho
    · rcases hq with rfl | rfl <;> cases hcl
    all_goals rfl

/-- A backslash is no stop. -/
theorem stopsAt_backslash : (reading quote depth).stopsAt stops '\\' = false := by
  rw [stopsAt_reading, endsAt, show stops.contains '\\' = false from rfl, Bool.and_false]

/-- **The scan passes over a backslash and the character after it**, and is back in its state. -/
theorem span_escape (escaped : Char) (t : Text) :
    Scan.span stops (reading quote depth) ('\\' :: escaped :: t)
      = ('\\' :: escaped :: (Scan.span stops (reading quote depth) t).1,
          (Scan.span stops (reading quote depth) t).2) := by
  have hescape : ((reading quote depth).step '\\').stopsAt stops escaped = false := by
    cases quote <;> rfl
  have hback : ((reading quote depth).step '\\').step escaped = reading quote depth := by
    cases quote <;> rfl
  rw [Scan.span, if_neg (by simp [stopsAt_backslash]), Scan.span, if_neg (by simp [hescape]), hback]

/-- **What the reader takes is a span of the scan.** -/
theorem preludeFrom_eq_span (quote : Option Char) (depth : Nat) (t : Text) :
    preludeFrom quote depth t = Scan.span stops (reading quote depth) t := by
  fun_induction preludeFrom quote depth t with
  | case1 => rfl
  | case2 quote depth c hend => rw [Scan.span, if_pos (stopsAt_reading.trans hend)]
  | case3 quote depth c hend =>
    rw [Scan.span, if_neg (stopsAt_reading ▸ hend)]
    rfl
  | case4 quote depth next rest text left he ih => rw [span_escape, ← ih, he]
  | case5 quote depth c next rest hc hend =>
    rw [Scan.span, if_pos (stopsAt_reading.trans hend)]
  | case6 quote depth c next rest hc hend text left he ih =>
    rw [Scan.span, if_neg (stopsAt_reading ▸ hend), step_reading hc, ← ih, he]

theorem prelude_eq_span (t : Text) : prelude t = Scan.span stops .start t :=
  preludeFrom_eq_span none 0 t

theorem stops_eq : stops = [';', '{', '}'] := rfl

/-- **Lists are split at `;`, `{` and `}` as headers and declarations are read.** What is read as
one begins the text, it is one item, and it ends with the text or before one of these characters,
at which a list is split again: behind it there is an item more, without characters. -/
theorem prelude_splits (t : Text) :
    let text := (prelude t).1
    let left := (prelude t).2
    text ++ left = t ∧ Text.split [';', '{', '}'] true text = [Text.trim text] ∧
      (left = [] ∨ ∃ c rest, left = c :: rest ∧ (c = ';' ∨ c = '{' ∨ c = '}') ∧
        Text.pieces [';', '{', '}'] .start (text ++ [c]) = (text, [[]]) ∧
        Text.split [';', '{', '}'] true (text ++ [c]) =
          if text = [] then [[]] else [Text.trim text, []]) := by
  intro text left
  rw [← stops_eq]
  have htext : text = (Scan.span stops .start t).1 := congrArg Prod.fst (prelude_eq_span t)
  have hleft : left = (Scan.span stops .start t).2 := congrArg Prod.snd (prelude_eq_span t)
  have hpass : Scan.Passes stops .start text := htext ▸ Scan.passes_span stops .start t
  refine ⟨?_, (Text.split_of_passes hpass).1, ?_⟩
  · rw [htext, hleft, Scan.span_append]
  · cases hl : left with
    | nil => exact .inl rfl
    | cons c rest =>
      have hend : (Scan.span stops .start t).2 = c :: rest := hleft.symm.trans hl
      obtain ⟨-, hc, hm⟩ := Scan.stopsAt_iff.1 (Scan.stopsAt_of_span hend)
      have hrun : Scan.start.run text = .start := htext ▸ Scan.run_span hend
      refine .inr ⟨c, rest, rfl, by simpa [stops] using hm, ?_, ?_⟩
      · rw [Text.pieces_append_separator hc hm hrun, Text.pieces_of_passes hpass]
        rfl
      · rw [Text.split_append_separator hc hm hrun, (Text.split_of_passes hpass).2]
        split_ifs with hnil
        · rw [hnil]
          rfl
        · rw [Text.itemOf_of_ne_nil hnil]
          rfl

/-- A quote and an escape in parentheses, and a closing parenthesis too many. -/
example : prelude "(\";)\\\";\") \\;) a;b".toList = ("(\";)\\\";\") \\;) a".toList, ";b".toList) ∧
    Text.split [';', '{', '}'] true "(\";)\\\";\") \\;) a;".toList
      = ["(\";)\\\";\") \\;) a".toList, []] := by
  decide +kernel

end Segment
end MediaGrouping
