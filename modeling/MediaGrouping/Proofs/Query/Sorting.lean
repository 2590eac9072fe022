/-
# Sorted query lists

What a stable sort by a comparison promises: the list has the same members, in the order of
the comparison, and those that compare equal stay in the order they had (`StablySorted`).
Every policy whose comparison is a total preorder sorts in this way
(`SortPolicy.stablySorted_sort`). For the widths this rests on any two of them comparing:
query lists that are paired with what they measure, and left in place where the measures do
not compare, are sorted by their keys (`SortPolicy.sortMeasured_eq`).
-/

import MediaGrouping.Proofs.Query.Alternatives
import MediaGrouping.Proofs.Query.Measuring
import MediaGrouping.Proofs.Query.Order

namespace MediaGrouping

/-- **A list sorted by a comparison**, stably: of its members none stands before a lesser one,
and those that compare equal with a text stand in the order they had. -/
structure StablySorted (cmp : Text → Text → Ordering) (lists sorted : List Text) : Prop where
  perm : sorted.Perm lists
  ordered : sorted.Pairwise fun a b => cmp a b ≠ .gt
  stable : ∀ a, sorted.filter (cmp a · == .eq) = lists.filter (cmp a · == .eq)

namespace SortPolicy

variable {policy : SortPolicy} {a b : Text}

/-- How a policy compares query lists. -/
def comparison : SortPolicy → Text → Text → Ordering
  | .preserve, _, _ => .eq
  | .minWidth, a, b => compare (queryKey a).rank (queryKey b).rank
  | .custom cmp, a, b => cmp a b

theorem mayPrecede_iff : policy.mayPrecede a b = true ↔ (policy.comparison a b).isLE = true := by
  cases policy with
  | preserve => exact Iff.rfl
  | minWidth => rw [mayPrecede_minWidth, comparison, Std.isLE_compare]
  | custom cmp => rw [mayPrecede_custom, comparison]

theorem transCmp_comparison (h : policy.IsPreorder) : Std.TransCmp policy.comparison := by
  cases policy with
  | preserve => exact { eq_swap := rfl, isLE_trans := fun _ _ => rfl }
  | minWidth =>
    exact { eq_swap := Std.OrientedOrd.eq_swap, isLE_trans := Std.TransOrd.isLE_trans }
  | custom cmp => exact h

/-- Query lists that compare equal with another may precede each other. -/
theorem mayPrecede_of_eq (h : policy.IsPreorder) {t : Text} (ha : policy.comparison t a = .eq)
    (hb : policy.comparison t b = .eq) : policy.mayPrecede a b = true := by
  have := transCmp_comparison h
  rw [mayPrecede_iff]
  exact Ordering.isLE_of_eq_eq (Std.TransCmp.eq_trans (Std.OrientedCmp.eq_symm ha) hb)

/-- **A policy sorts stably** by its comparison. -/
theorem stablySorted_sort (h : policy.IsPreorder) (lists : List Text) :
    StablySorted policy.comparison lists (policy.sort lists) where
  perm := List.mergeSort_perm lists _
  ordered := by
    refine (List.pairwise_mergeSort (mayPrecede_trans h) (mayPrecede_total h) lists).imp ?_
    intro a b hab
    exact Ordering.isLE_iff_ne_gt.1 (mayPrecede_iff.1 hab)
  stable a := by
    -- members that compare equal are in order as they stand, and so are found in that order
    have hequal : (lists.filter (policy.comparison a · == .eq)).Pairwise
        fun b c => policy.mayPrecede b c = true := by
      refine List.pairwise_of_forall_mem_list fun b hb c hc => mayPrecede_of_eq (t := a) h ?_ ?_
      · exact beq_iff_eq.1 (List.mem_filter.1 hb).2
      · exact beq_iff_eq.1 (List.mem_filter.1 hc).2
    have hsub := (List.sublist_mergeSort (mayPrecede_trans h) (mayPrecede_total h) hequal
      List.filter_sublist).filter (policy.comparison a · == .eq)
    rw [List.filter_filter] at hsub
    simp only [Bool.and_self] at hsub
    have hlength := ((List.mergeSort_perm lists policy.mayPrecede).filter
      (policy.comparison a · == .eq)).length_eq
    exact (hsub.eq_of_length hlength.symm).symm

/-- The query lists in the order of what they measure, which each is paired with; such as do not
compare are taken for equal. -/
def sortMeasured (lists : List Text) : List Text :=
  ((lists.map fun t => (queryMeasure t, t)).mergeSort fun a b =>
    ((Double.compare? a.1 b.1).getD .eq).isLE).map Prod.snd

/-- **Sorting by measures is sorting by keys.** -/
theorem sortMeasured_eq (lists : List Text) :
    sortMeasured lists = SortPolicy.minWidth.sort lists := by
  have hle : ∀ a b : Text, SortPolicy.minWidth.mayPrecede a b =
      ((Double.compare? (queryMeasure a) (queryMeasure b)).getD .eq).isLE := fun a b => by
    rw [Bool.eq_iff_iff, mayPrecede_iff, queryMeasure_eq, queryMeasure_eq]
    rfl
  rw [sortMeasured, sort, ← List.map_mergeSort (fun a _ b _ => hle a b), List.map_map]
  exact List.map_id _

/-- **Query lists are sorted by width, or by a comparison that is a total preorder.** The sorted
list has the same members, none before a lesser one, and those that compare equal in the order
they had, so that sorting it again changes nothing. Widths always compare: to measure a query
list takes no invalid operation, and no list asks for more than one without bound. -/
theorem sort_by_width_or_comparison (lists : List Text) :
    (StablySorted (fun a b => compare (queryKey a).rank (queryKey b).rank) lists
        (SortPolicy.minWidth.sort lists) ∧
      SortPolicy.minWidth.sort (SortPolicy.minWidth.sort lists) = SortPolicy.minWidth.sort lists ∧
      sortMeasured lists = SortPolicy.minWidth.sort lists) ∧
    (∀ s t, queryMeasure t = some (queryKey t) ∧ (queryKey t).rank ≤ Length.unbounded.rank ∧
      Double.compare? (queryMeasure s) (queryMeasure t)
        = some (compare (queryKey s).rank (queryKey t).rank)) ∧
    ∀ cmp, Std.TransCmp cmp → StablySorted cmp lists ((SortPolicy.custom cmp).sort lists) ∧
      (SortPolicy.custom cmp).sort ((SortPolicy.custom cmp).sort lists)
        = (SortPolicy.custom cmp).sort lists := by
  have hwidth : SortPolicy.minWidth.IsPreorder := trivial
  refine ⟨⟨stablySorted_sort hwidth lists, sort_sort hwidth lists, sortMeasured_eq lists⟩,
    fun s t => ⟨queryMeasure_eq t, Expression.rank_minWidthKey_le _, ?_⟩, fun cmp hcmp => ?_⟩
  · rw [queryMeasure_eq, queryMeasure_eq]
    rfl
  · have hcustom : (SortPolicy.custom cmp).IsPreorder := hcmp
    exact ⟨stablySorted_sort hcustom lists, sort_sort hcustom lists⟩

theorem sort_by_width_or_comparison_length :
    let lists := ["print", "(min-width: 100px)", "(min-width: -.5٣em)", "(min-width: 6.25em)",
      "(max-width: 300px), (min-width: 1em)"].map String.toList
    let cmp := fun a b : Text => compare b.length a.length
    Std.TransCmp cmp ∧
    (StablySorted (fun a b => compare (queryKey a).rank (queryKey b).rank) lists
        (SortPolicy.minWidth.sort lists) ∧
      SortPolicy.minWidth.sort (SortPolicy.minWidth.sort lists) = SortPolicy.minWidth.sort lists ∧
      sortMeasured lists = SortPolicy.minWidth.sort lists) ∧
    (∀ s t, queryMeasure t = some (queryKey t) ∧ (queryKey t).rank ≤ Length.unbounded.rank ∧
      Double.compare? (queryMeasure s) (queryMeasure t)
        = some (compare (queryKey s).rank (queryKey t).rank)) ∧
    StablySorted cmp lists ((SortPolicy.custom cmp).sort lists) ∧
    (SortPolicy.custom cmp).sort ((SortPolicy.custom cmp).sort lists)
      = (SortPolicy.custom cmp).sort lists := by
  intro lists cmp
  have hcmp : Std.TransCmp cmp :=
    { eq_swap := Std.OrientedOrd.eq_swap
      isLE_trans := fun hab hbc => Std.TransOrd.isLE_trans hbc hab }
  obtain ⟨hwidth, hcompare, hcustom⟩ := sort_by_width_or_comparison lists
  exact ⟨hcmp, hwidth, hcompare, hcustom cmp hcmp⟩

end SortPolicy
end MediaGrouping
