/-
# Items without characters

A list is cut where separators stand at the top level. What stands between two of these, or
between one and an end of the list, is a stretch of the list (`Text.Stretch`), and every list is
one stretch, or a stretch and a separator with a list behind them (`Text.stretch_induction`). A
stretch is cut out as it is and trimmed only then, apart from what stands before and behind it
(`Text.Stretch.exists_split_before`, `Text.Stretch.exists_split_piece`).

So a stretch of no characters has no item, but a stretch of blanks that are no separators has an
empty one. Items are trimmed, and apart from the last one, if that is kept in any case, none is
empty just if no stretch is of blanks, or that has no characters (`Text.noneEmpty_split_iff`).
-/

import MediaGrouping.Proofs.Text.Splitting

namespace MediaGrouping
namespace Text

open Scan (start Passes)

variable {separators : List Char} {trailing : Bool} {t u before piece after : Text}
  {items others : List Text} {c d : Char}

/-- **No item is empty**, but for the last one if it is kept in any case. -/
def NoneEmpty (trailing : Bool) (items : List Text) : Prop :=
  [] ∉ if trailing then items.dropLast else items

instance (trailing : Bool) (items : List Text) : Decidable (NoneEmpty trailing items) :=
  inferInstanceAs (Decidable (¬ _))

/-- **A stretch of a list**: it begins with the list or right behind a separator at the top level,
it ends with the list or right before one, and none stands in it. -/
structure Stretch (separators : List Char) (before piece after : Text) : Prop where
  starts : before = [] ∨ ∃ u c, before = u ++ [c] ∧ Separates separators u c
  whole : ∀ u c v, piece = u ++ c :: v → ¬ Separates separators (before ++ u) c
  ends : after = [] ∨ ∃ c v, after = c :: v ∧ Separates separators (before ++ piece) c

/-! ### Stretches -/

/-- Behind a separator a scan is at the start again. -/
theorem run_separator (h : Separates separators u c) (t : Text) :
    start.run (u ++ c :: t) = start.run t := by
  rw [Scan.run_append, Scan.run_cons, Scan.step_of_stopsAt (separates_iff.1 h)]

/-- What stands before a separator has no part in what separates behind it. -/
theorem separates_behind (h : Separates separators u c) :
    Separates separators (u ++ c :: t) d ↔ Separates separators t d := by
  rw [separates_iff, separates_iff, run_separator h]

theorem split_true_ne_nil (separators : List Char) (t : Text) : split separators true t ≠ [] := by
  rw [split_eq]
  generalize (pieces separators start t).1 = piece
  induction (pieces separators start t).2 generalizing piece with
  | nil => exact List.cons_ne_nil _ _
  | cons next others ih => exact fun h => ih next (List.append_eq_nil_iff.1 h).2

namespace Stretch

/-- A list without a separator is a stretch. -/
theorem of_single (h : Single separators t) : Stretch separators [] t [] :=
  ⟨.inl rfl, h, .inl rfl⟩

/-- What stands before the first separator is a stretch. -/
theorem of_separates (h : Single separators u) (hc : Separates separators u c) (t : Text) :
    Stretch separators [] u (c :: t) :=
  ⟨.inl rfl, h, .inr ⟨c, t, rfl, hc⟩⟩

/-- **The stretches behind a separator** are stretches of the whole list. -/
theorem behind (hc : Separates separators u c) (h : Stretch separators before piece after) :
    Stretch separators (u ++ c :: before) piece after := by
  have hcut : ∀ w, u ++ c :: before ++ w = u ++ c :: (before ++ w) := fun w => by
    rw [List.append_assoc, List.cons_append]
  refine ⟨.inr ?_, fun v d w hv => ?_, h.ends.imp_right ?_⟩
  · rcases h.starts with rfl | ⟨v, d, rfl, hd⟩
    · exact ⟨u, c, rfl, hc⟩
    · exact ⟨u ++ c :: v, d, by rw [List.append_assoc, List.cons_append],
        (separates_behind hc).2 hd⟩
  · rw [hcut, separates_behind hc]
    exact h.whole v d w hv
  · rintro ⟨d, v, rfl, hd⟩
    exact ⟨d, v, rfl, hcut piece ▸ (separates_behind hc).2 hd⟩

/-- A scan is at the start where a stretch begins. -/
theorem run_before (h : Stretch separators before piece after) : start.run before = start := by
  rcases h.starts with rfl | ⟨u, c, rfl, hc⟩
  · rfl
  · exact run_separator hc []

/-- A scan passes over a stretch. -/
theorem passes (h : Stretch separators before piece after) : Passes separators start piece :=
  h.run_before ▸ (passes_run_iff before piece).2 h.whole

/-- What stands before a stretch is split on its own. -/
theorem exists_split_before (h : Stretch separators before piece after) (trailing : Bool) :
    ∃ front, ∀ t, split separators trailing (before ++ t)
      = front ++ split separators trailing t := by
  rcases h.starts with rfl | ⟨u, c, rfl, hout, hc, hm⟩
  · exact ⟨[], fun t => rfl⟩
  · refine ⟨split separators false u, fun t => ?_⟩
    rw [List.append_assoc, List.singleton_append,
      split_append_separator hc hm (outside_iff.1 hout)]

/-- **The item of a stretch comes first** in what is split from there, and more items follow if
the list goes on and its last item is kept. -/
theorem exists_split_piece (h : Stretch separators before piece after) (trailing : Bool) :
    ∃ back, split separators trailing (piece ++ after) = itemOf piece ++ back ∧
      (trailing = true → after ≠ [] → back ≠ []) := by
  have hitem : split separators false piece = itemOf piece := (split_of_passes h.passes).2
  rcases h.ends with rfl | ⟨c, rest, rfl, hout, hc, hm⟩
  · rw [List.append_nil]
    have hfalse : split separators false piece = itemOf piece ++ [] := by
      rw [hitem, List.append_nil]
    cases trailing with
    | false => exact ⟨[], hfalse, fun _ hne => absurd rfl hne⟩
    | true =>
      rcases @split_true_or separators piece with he | he
      · exact ⟨[], he.trans hfalse, fun _ hne => absurd rfl hne⟩
      · exact ⟨[[]], he.trans (by rw [hitem]), fun _ hne => absurd rfl hne⟩
  · have hrun : start.run piece = start := by
      have hstart : start.run (before ++ piece) = start := outside_iff.1 hout
      rwa [Scan.run_append, h.run_before] at hstart
    refine ⟨split separators trailing rest, ?_, fun htrailing _ => ?_⟩
    · rw [split_append_separator hc hm hrun, hitem]
    · exact htrailing ▸ split_true_ne_nil separators rest

end Stretch

/-- **Every list is a stretch, or a stretch and a separator with a list behind them.** -/
@[elab_as_elim]
theorem stretch_induction (separators : List Char) {motive : Text → Prop}
    (last : ∀ t, Single separators t → motive t)
    (separated : ∀ u c rest, Single separators u → Separates separators u c → motive rest →
      motive (u ++ c :: rest)) (t : Text) : motive t := by
  induction hn : t.length using Nat.strong_induction_on generalizing t with
  | _ n ih =>
    have hspan := Scan.span_append separators start t
    have hpass : Single separators (Scan.span separators start t).1 :=
      single_iff.2 (Scan.passes_span separators start t)
    cases hleft : (Scan.span separators start t).2 with
    | nil => exact last t (single_iff.2 hleft)
    | cons c rest =>
      rw [hleft] at hspan
      have hlength := congrArg List.length hspan
      rw [List.length_append, List.length_cons] at hlength
      rw [← hspan]
      exact separated _ c rest hpass (separates_iff.2 (Scan.stopsAt_of_span hleft))
        (ih rest.length (by omega) rest rfl)

/-! ### Items without characters -/

theorem noneEmpty_append (h : trailing = true → others ≠ []) :
    NoneEmpty trailing (items ++ others) ↔ [] ∉ items ∧ NoneEmpty trailing others := by
  cases trailing with
  | false => simp [NoneEmpty]
  | true => simp [NoneEmpty, List.dropLast_append_of_ne_nil (h rfl)]

/-- A stretch has an empty item if it is of blanks and has characters. -/
theorem nil_mem_itemOf_iff : [] ∈ itemOf piece ↔ Blank piece ∧ piece ≠ [] := by
  by_cases hne : piece = []
  · simp [hne, itemOf]
  · rw [itemOf_of_ne_nil hne, List.mem_singleton, and_iff_left hne, eq_comm]
    constructor
    · intro hnil
      obtain ⟨b, b', hb, hb', he⟩ := exists_trim piece
      rw [hnil, List.append_nil] at he
      exact he ▸ hb.append hb'
    · intro hb
      rw [trim, trimStart_of_blank hb]
      rfl

/-- No item is empty if no stretch is of blanks. -/
theorem noneEmpty_of_stretches (h : ∀ before piece after, t = before ++ piece ++ after →
      Stretch separators before piece after → Blank piece →
      piece = [] ∨ trailing = true ∧ after = []) :
    NoneEmpty trailing (split separators trailing t) := by
  induction t using stretch_induction separators with
  | last t ht =>
    obtain ⟨hkept, hitem⟩ := split_of_passes (single_iff.1 ht)
    cases trailing with
    | true =>
      rw [hkept]
      exact List.not_mem_nil
    | false =>
      rw [hitem]
      intro hmem
      obtain ⟨hb, hne⟩ := nil_mem_itemOf_iff.1 hmem
      rcases h [] t [] (List.append_nil _).symm (.of_single ht) hb with hnil | ⟨hkept, -⟩
      · exact hne hnil
      · cases hkept
  | separated u c rest hu hc ih =>
    obtain ⟨hout, hcontrol, hm⟩ := id hc
    rw [split_append_separator hcontrol hm (outside_iff.1 hout),
      (split_of_passes (single_iff.1 hu)).2,
      noneEmpty_append fun htrailing => htrailing ▸ split_true_ne_nil separators rest]
    constructor
    · intro hmem
      obtain ⟨hb, hne⟩ := nil_mem_itemOf_iff.1 hmem
      rcases h [] u (c :: rest) rfl (.of_separates hu hc rest) hb with hnil | ⟨-, hnil⟩
      · exact hne hnil
      · cases hnil
    · exact ih fun before piece after ht hs hb =>
        h (u ++ c :: before) piece after (by simp [ht]) (hs.behind hc) hb

/-- **A stretch of blanks makes an empty item**, if it has characters and its item is not the last
one, or is not kept in any case. -/
theorem Stretch.not_noneEmpty (h : Stretch separators before piece after) (hb : Blank piece)
    (hne : piece ≠ []) (hlast : trailing = true → after ≠ []) :
    ¬ NoneEmpty trailing (split separators trailing (before ++ piece ++ after)) := by
  obtain ⟨front, hfront⟩ := h.exists_split_before trailing
  obtain ⟨back, hback, hmore⟩ := h.exists_split_piece trailing
  rw [List.append_assoc, hfront, hback, ← List.append_assoc,
    noneEmpty_append fun htrailing => hmore htrailing (hlast htrailing)]
  exact fun hno => hno.1 (List.mem_append_right _ (nil_mem_itemOf_iff.2 ⟨hb, hne⟩))

/-- **Items are trimmed, and only stretches of blanks make empty ones.** No item is empty, but for
the last one if it is kept in any case, just if every stretch of blanks has no characters, or is
the last one and kept. -/
theorem noneEmpty_split_iff (separators : List Char) (trailing : Bool) (t : Text) :
    (∀ item ∈ split separators trailing t, Trimmed item) ∧
    (NoneEmpty trailing (split separators trailing t) ↔
      ∀ before piece after, t = before ++ piece ++ after →
        Stretch separators before piece after → Blank piece →
        piece = [] ∨ trailing = true ∧ after = []) := by
  refine ⟨fun item hitem => ?_, fun h before piece after ht hs hb => ?_, noneEmpty_of_stretches⟩
  · obtain ⟨p, -, rfl⟩ := exists_piece_of_mem_items hitem
    exact trimmed_trim p
  · by_contra hno
    obtain ⟨hne, hlast⟩ := not_or.1 hno
    subst ht
    exact hs.not_noneEmpty hb hne (fun htrailing ha => hlast ⟨htrailing, ha⟩) h

/-- A stretch of no characters, and a last item that is kept. -/
theorem noneEmpty_split_iff_kept :
    let t := " a,,(b, ),\t".toList
    ("a".toList ∈ split [','] true t ∧ Trimmed "a".toList) ∧
    NoneEmpty true (split [','] true t) ∧
      ∀ before piece after, t = before ++ piece ++ after →
        Stretch [','] before piece after → Blank piece → piece = [] ∨ true = true ∧ after = [] := by
  intro t
  have hitem : "a".toList ∈ split [','] true t := by decide +kernel
  have hnone : NoneEmpty true (split [','] true t) := by decide +kernel
  exact ⟨⟨hitem, (noneEmpty_split_iff [','] true t).1 _ hitem⟩, hnone,
    (noneEmpty_split_iff [','] true t).2.1 hnone⟩

/-- **A stretch of blanks has an empty item**, in the middle of a list as well as at its ends. -/
theorem not_noneEmpty_split :
    ¬ NoneEmpty false (split [','] false "a, ,b".toList) ∧
      ¬ NoneEmpty true (split [','] true " ,b".toList) ∧
      ¬ NoneEmpty false (split [','] false " ".toList) := by
  decide +kernel

end Text
end MediaGrouping
