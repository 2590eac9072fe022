/-
# Query lists one after the other

A query list asks for the width that its least demanding alternative asks for. Two lists
with a comma between them have the alternatives of both, but for an empty last one of the
first list, which is only kept at the end of a list. An empty alternative has no bound, and
no list asks for more, so it does not count (`Expression.minWidthKey_concat_nil`); and the
smaller of several widths may be taken in any groups (`Binary64.smaller_assoc`). So the
width that both lists together ask for is the smaller one (`queryKey_append_comma`).
-/

import MediaGrouping.Proofs.Text.Splitting
import MediaGrouping.Query.Order

namespace MediaGrouping
namespace Binary64

variable {x y : Binary64}

theorem smaller_assoc (x y z : Binary64) : smaller (smaller x y) z = smaller x (smaller y z) := by
  simp only [smaller, lt, decide_eq_true_eq]
  split_ifs
  all_goals first | rfl | omega

instance : Std.Associative smaller := ⟨smaller_assoc⟩

theorem smaller_eq_left (h : x.rank ≤ y.rank) : smaller x y = x :=
  if_neg (by simpa [lt] using h)

/-- The smallest of several values is no larger than the first one. -/
theorem rank_foldl_smaller_le (x : Binary64) (ys : List Binary64) :
    (ys.foldl smaller x).rank ≤ x.rank := by
  induction ys generalizing x with
  | nil => exact Int.le_refl _
  | cons y ys ih =>
    have hx : (smaller x y).rank ≤ x.rank := by
      rw [rank_smaller]
      exact Int.min_le_left _ _
    exact Int.le_trans (ih (smaller x y)) hx

end Binary64

namespace Expression

open Binary64 (smaller)

/-- An empty alternative asks for nothing. -/
theorem widthKey_nil : widthKey (ofAlternative []) = Length.unbounded := rfl

/-- No list of alternatives asks for more than one without alternatives. -/
theorem rank_minWidthKey_le (es : List Expression) :
    (minWidthKey es).rank ≤ Length.unbounded.rank :=
  Binary64.rank_foldl_smaller_le _ _

/-- **The alternatives of two lists** ask for what the list asks for that asks for less. -/
theorem minWidthKey_append (es ds : List Expression) :
    minWidthKey (es ++ ds) = smaller (minWidthKey es) (minWidthKey ds) := by
  have hseed : minWidthKey es = smaller (minWidthKey es) Length.unbounded :=
    (Binary64.smaller_eq_left (rank_minWidthKey_le es)).symm
  calc minWidthKey (es ++ ds)
      = (ds.map widthKey).foldl smaller (minWidthKey es) := by
        rw [minWidthKey, List.map_append, List.foldl_append]
        rfl
    _ = (ds.map widthKey).foldl smaller (smaller (minWidthKey es) Length.unbounded) := by
        rw [← hseed]
    _ = smaller (minWidthKey es) (minWidthKey ds) := List.foldl_assoc

/-- **An empty alternative does not count.** -/
theorem minWidthKey_concat_nil (es : List Expression) :
    minWidthKey (es ++ [ofAlternative []]) = minWidthKey es := by
  rw [minWidthKey, List.map_append, List.foldl_append, List.map_singleton, widthKey_nil,
    List.foldl_cons, List.foldl_nil]
  exact Binary64.smaller_eq_left (rank_minWidthKey_le es)

end Expression

open Expression (minWidthKey ofAlternative)

variable {a : Text}

/-- An empty last alternative may be left out. -/
theorem queryKey_eq (t : Text) :
    queryKey t = minWidthKey ((Text.split [','] false t).map ofAlternative) := by
  rw [queryKey, Expression.ofQueryList, Text.commaItems]
  rcases @Text.split_true_or [','] t with h | h
  · rw [h]
  · rw [h, List.map_append, List.map_singleton, Expression.minWidthKey_concat_nil]

/-- **Two query lists with a comma between them ask for the smaller one of their widths**,
whatever the lists are, if the first one ends outside quotes, escapes and parentheses. -/
theorem queryKey_append_comma (ha : (Text.Scan.start.run a).isTop = true) (b : Text) :
    queryKey (a ++ ',' :: b) = (queryKey a).smaller (queryKey b) ∧
      (queryKey (a ++ ',' :: b)).rank = min (queryKey a).rank (queryKey b).rank := by
  have hrun : Text.Scan.start.run a = .start := Text.Scan.isTop_iff.1 ha
  have hkey : queryKey (a ++ ',' :: b) = (queryKey a).smaller (queryKey b) := by
    rw [queryKey_eq, Text.split_append_separator rfl List.mem_cons_self hrun, List.map_append,
      Expression.minWidthKey_append, ← queryKey_eq, ← queryKey_eq]
  exact ⟨hkey, by rw [hkey, Binary64.rank_smaller]⟩

theorem queryKey_append_comma_widths :
    let a := "screen and (min-width: 600px), (min-width: calc(1,2)) and (min-width: 50em),".toList
    let b := "(min-width: 20em), )(, not all".toList
    (Text.Scan.start.run a).isTop = true ∧
      queryKey (a ++ ',' :: b) = (queryKey a).smaller (queryKey b) ∧
      (queryKey (a ++ ',' :: b)).rank = min (queryKey a).rank (queryKey b).rank := by
  intro a b
  have ha : (Text.Scan.start.run a).isTop = true := by decide +kernel
  exact ⟨ha, queryKey_append_comma ha b⟩

/-- The widths are 600 and 320 pixels. -/
example : queryKey "(min-width: 600px), (min-width: 40em) and (min-width: 1px), ,".toList
      = .ofQuotient false 600 1 ∧
    queryKey "(min-width: 600px), (min-width: 40em), ,,(min-width: 20em)".toList
      = .ofQuotient false 320 1 := by
  decide +kernel

end MediaGrouping
