/-
# Splitting lists

A list is cut into pieces that hold no separator the scan stops at (`passes_pieces`),
and nothing is lost but these (`flatten_pieces`). Each piece begins where the scan is at
the start, so it may be taken out of the list: splitting an item gives the item again.
This and that the items hold all the rest of the text is `items_of_split`; what the rest
of the text is says `unseparated`, by the parts of the text and without a scan.

Two lists with a separator between them are split one after the other
(`split_append_separator`), and to keep a last item without characters makes no more
difference than that item (`split_true_or`). A text without a separator at the top level
is one item (`Single`, `split_of_passes`), and so is every item (`single_of_mem_split`).
Words are the items between spaces, line feeds and tabs (`separates_words_iff`,
`spaceItems_append`). Blanks around a list only make empty items (`filter_split_trim`).
-/

import MediaGrouping.Proofs.Text.Outside
import MediaGrouping.Text.Split

namespace MediaGrouping
namespace Text

open Scan (start Passes)

variable {separators : List Char} {trailing : Bool} {s : Scan} {t piece item : Text}
  {others : List Text} {c : Char}

/-- **A separator at the top level**: it stands outside quotes, escapes and parentheses, and is
no character that makes these. -/
def Separates (separators : List Char) (passed : Text) (c : Char) : Prop :=
  Outside passed 0 ∧ Scan.isControl c = false ∧ c ∈ separators

instance (separators : List Char) (passed : Text) (c : Char) :
    Decidable (Separates separators passed c) :=
  inferInstanceAs (Decidable (_ ∧ _ ∧ _))

/-- **A text without its separators at the top level**, where other text stands before it. -/
def unseparated (separators : List Char) (passed : Text) : Text → Text
  | [] => []
  | c :: rest =>
    if Separates separators passed c then unseparated separators (passed ++ [c]) rest
    else c :: unseparated separators (passed ++ [c]) rest

/-- A scan stops at the separators at the top level. -/
theorem separates_iff :
    Separates separators t c ↔ (start.run t).stopsAt separators c = true := by
  rw [Separates, outside_iff, Scan.stopsAt_iff, start]

/-- **No separator stands at the top level** of a text. -/
def Single (separators : List Char) (t : Text) : Prop :=
  ∀ passed c rest, t = passed ++ c :: rest → ¬ Separates separators passed c

/-- A scan passes over what follows a text if no separator follows at the top level. -/
theorem passes_run_iff (passed t : Text) : Passes separators (start.run passed) t ↔
    ∀ u c rest, t = u ++ c :: rest → ¬ Separates separators (passed ++ u) c := by
  induction t generalizing passed with
  | nil => simp
  | cons d t ih =>
    have hstep : (start.run passed).step d = start.run (passed ++ [d]) := by
      rw [Scan.run_append]
      rfl
    rw [Scan.passes_cons, hstep, ih, Bool.eq_false_iff, ne_eq, ← separates_iff]
    constructor
    · rintro ⟨hd, ht⟩ (_ | ⟨e, u⟩) c rest h
      · obtain ⟨rfl, -⟩ := List.cons.inj h
        rwa [List.append_nil]
      · obtain ⟨rfl, hrest⟩ := List.cons.inj h
        simpa using ht u c rest hrest
    · intro h
      refine ⟨by simpa using h [] d t rfl, fun u c rest ht => ?_⟩
      simpa using h (d :: u) c rest (by rw [ht, List.cons_append])

theorem single_iff : Single separators t ↔ Passes separators start t :=
  (passes_run_iff [] t).symm

instance (separators : List Char) (t : Text) : Decidable (Single separators t) :=
  decidable_of_iff _ single_iff.symm

/-! ### Pieces -/

theorem pieces_cons_of_stop (h : s.stopsAt separators c = true) (t : Text) :
    pieces separators s (c :: t)
      = ([], (pieces separators start t).1 :: (pieces separators start t).2) := by
  rw [pieces, Scan.step_of_stopsAt h]
  exact if_pos h

theorem pieces_cons_of_pass (h : s.stopsAt separators c = false) (t : Text) :
    pieces separators s (c :: t)
      = (c :: (pieces separators (s.step c) t).1, (pieces separators (s.step c) t).2) := by
  rw [pieces]
  exact if_neg (by simp [h])

/-- What a scan passes over is one piece. -/
theorem pieces_of_passes (h : Passes separators s t) : pieces separators s t = (t, []) := by
  induction t generalizing s with
  | nil => rfl
  | cons c t ih =>
    obtain ⟨hc, ht⟩ := Scan.passes_cons.1 h
    rw [pieces_cons_of_pass hc, ih ht]

/-- **A scan passes over each piece**, over all but the first one from the start. -/
theorem passes_pieces (s : Scan) (t : Text) :
    Passes separators s (pieces separators s t).1 ∧
      ∀ p ∈ (pieces separators s t).2, Passes separators start p := by
  induction t generalizing s with
  | nil => exact ⟨Scan.passes_nil, List.forall_mem_nil _⟩
  | cons c t ih =>
    cases hc : s.stopsAt separators c with
    | true =>
      rw [pieces_cons_of_stop hc]
      exact ⟨Scan.passes_nil, List.forall_mem_cons.2 (ih start)⟩
    | false =>
      rw [pieces_cons_of_pass hc]
      exact ⟨Scan.passes_cons.2 ⟨hc, (ih (s.step c)).1⟩, (ih (s.step c)).2⟩

/-- **The pieces of a text are the text without its separators.** -/
theorem flatten_pieces (passed t : Text) :
    ((pieces separators (start.run passed) t).1 ::
      (pieces separators (start.run passed) t).2).flatten = unseparated separators passed t := by
  induction t generalizing passed with
  | nil => rfl
  | cons c t ih =>
    have hrun : (start.run passed).step c = start.run (passed ++ [c]) := by
      rw [Scan.run_append]
      rfl
    cases hc : (start.run passed).stopsAt separators c with
    | true =>
      have hstart : start = start.run (passed ++ [c]) := by rw [← hrun, Scan.step_of_stopsAt hc]
      rw [pieces_cons_of_stop hc, unseparated, if_pos (separates_iff.2 hc), ← ih, ← hstart,
        List.flatten_cons, List.nil_append]
    | false =>
      rw [pieces_cons_of_pass hc, unseparated, if_neg (by simp [separates_iff, hc]), ← ih, hrun,
        List.flatten_cons, List.flatten_cons, List.cons_append]

/-- **The pieces of two texts with a separator between them**, if the first one ends at the top
level. -/
theorem pieces_append_separator (hc : Scan.isControl c = false) (hm : c ∈ separators)
    (hs : s.run t = start) (u : Text) :
    pieces separators s (t ++ c :: u)
      = ((pieces separators s t).1, (pieces separators s t).2 ++
          (pieces separators start u).1 :: (pieces separators start u).2) := by
  induction t generalizing s with
  | nil =>
    have hstop : s.stopsAt separators c = true := Scan.stopsAt_iff.2 ⟨hs, hc, hm⟩
    rw [List.nil_append, pieces_cons_of_stop hstop]
    rfl
  | cons d t ih =>
    rw [Scan.run_cons] at hs
    rw [List.cons_append]
    cases hd : s.stopsAt separators d with
    | true =>
      rw [Scan.step_of_stopsAt hd] at hs
      rw [pieces_cons_of_stop hd, pieces_cons_of_stop hd, ih hs]
      rfl
    | false => rw [pieces_cons_of_pass hd, pieces_cons_of_pass hd, ih hs]

/-! ### Items -/

theorem itemOf_of_ne_nil (h : piece ≠ []) : itemOf piece = [trim piece] :=
  if_neg (by simpa using h)

/-- Every item is a trimmed piece. -/
theorem exists_piece_of_mem_items (h : item ∈ items trailing piece others) :
    ∃ p ∈ piece :: others, item = trim p := by
  have hof : ∀ {p}, item ∈ itemOf p → item = trim p := fun {p} hp => by
    unfold itemOf at hp
    split_ifs at hp
    · cases hp
    · exact List.mem_singleton.1 hp
  induction others generalizing piece with
  | nil =>
    refine ⟨piece, List.mem_singleton_self piece, ?_⟩
    unfold items at h
    split_ifs at h
    · exact List.mem_singleton.1 h
    · exact hof h
  | cons next others ih =>
    rcases List.mem_append.1 h with h | h
    · exact ⟨piece, List.mem_cons_self, hof h⟩
    · obtain ⟨p, hp, he⟩ := ih h
      exact ⟨p, List.mem_cons_of_mem _ hp, he⟩

theorem solid_itemOf (piece : Text) : solid (itemOf piece).flatten = solid piece := by
  by_cases h : piece = []
  · rw [h]
    rfl
  · rw [itemOf_of_ne_nil h, List.flatten_singleton, solid_trim]

/-- **The items lose nothing but blanks of the pieces.** -/
theorem solid_items (piece : Text) (others : List Text) :
    solid (items trailing piece others).flatten = solid (piece :: others).flatten := by
  induction others generalizing piece with
  | nil =>
    rw [List.flatten_singleton, items]
    split_ifs
    · rw [List.flatten_singleton, solid_trim]
    · exact solid_itemOf piece
  | cons next others ih =>
    simp only [items, List.flatten_append, solid_append, solid_itemOf, ih, List.flatten_cons]

/-- The items before a separator are those without a last item of no characters. -/
theorem items_append (piece next : Text) (others rest : List Text) :
    items trailing piece (others ++ next :: rest)
      = items false piece others ++ items trailing next rest := by
  induction others generalizing piece with
  | nil => rfl
  | cons p others ih => rw [List.cons_append, items, ih, items, List.append_assoc]

theorem items_true_or (piece : Text) (others : List Text) :
    items true piece others = items false piece others ∨
      items true piece others = items false piece others ++ [[]] := by
  induction others generalizing piece with
  | nil =>
    by_cases h : piece = []
    · exact .inr (by rw [h]; rfl)
    · exact .inl (itemOf_of_ne_nil h).symm
  | cons next others ih =>
    rw [items, items]
    refine (ih next).imp (fun h => by rw [h]) fun h => by rw [h, List.append_assoc]

/-! ### Lists -/

theorem split_eq (t : Text) : split separators trailing t
    = items trailing (pieces separators start t).1 (pieces separators start t).2 := rfl

/-- **What a scan passes over is one item**, if it has characters or an item without is kept. -/
theorem split_of_passes (h : Passes separators start t) :
    split separators true t = [trim t] ∧ split separators false t = itemOf t := by
  rw [split_eq, split_eq, pieces_of_passes h]
  exact ⟨rfl, rfl⟩

/-- **The items of a list are single.** -/
theorem single_of_mem_split (h : item ∈ split separators trailing t) : Single separators item := by
  obtain ⟨p, hp, rfl⟩ := exists_piece_of_mem_items h
  have hpass : Passes separators start p :=
    List.forall_mem_cons.2 (passes_pieces start t) p hp
  exact single_iff.2 (hpass.trim Scan.sound_start rfl)

/-- **Two lists with a separator between them**, the first one ending at the top level, are split
one after the other. -/
theorem split_append_separator (hc : Scan.isControl c = false) (hm : c ∈ separators)
    (ht : start.run t = start) (u : Text) :
    split separators trailing (t ++ c :: u)
      = split separators false t ++ split separators trailing u := by
  rw [split_eq, pieces_append_separator hc hm ht, items_append]
  rfl

/-- **A last item without characters** is all that may be kept in addition. -/
theorem split_true_or (t : Text) : split separators true t = split separators false t ∨
    split separators true t = split separators false t ++ [[]] := items_true_or _ _

/-! ### Words -/

/-- **Spaces, line feeds and tabs separate words** at the top level, and no other characters do. -/
theorem separates_words_iff : Separates [' ', '\n', '\t'] t c ↔
    Outside t 0 ∧ (c = ' ' ∨ c = '\n' ∨ c = '\t') := by
  rw [Separates, and_congr_right_iff]
  intro _
  constructor
  · rintro ⟨-, hc⟩
    simpa using hc
  · rintro (rfl | rfl | rfl) <;> decide

/-- **The words of two texts with such a character between them** are those of either. -/
theorem spaceItems_append (ht : Outside t 0) (hc : c = ' ' ∨ c = '\n' ∨ c = '\t') (u : Text) :
    spaceItems (t ++ c :: u) = spaceItems t ++ spaceItems u := by
  obtain ⟨-, hcontrol, hmem⟩ := separates_words_iff.2 ⟨ht, hc⟩
  exact split_append_separator hcontrol hmem (outside_iff.1 ht) u

/-- **A text without such a character** is a word, or none if it has no characters. -/
theorem spaceItems_of_single (h : Single [' ', '\n', '\t'] t) :
    spaceItems t = if t = [] then [] else [trim t] := by
  have hitem : spaceItems t = itemOf t := (split_of_passes (single_iff.1 h)).2
  rw [hitem]
  split_ifs with hnil
  · rw [hnil]
    rfl
  · exact itemOf_of_ne_nil hnil

/-! ### Complete and final items -/

/-- **The items of a list are complete and final.** They hold the characters of the text that are
neither blank nor separators at the top level, in their order, and an item that is split again is
the only item, or none if it is empty and no empty last item is asked for. -/
theorem items_of_split (separators : List Char) (trailing : Bool) (t : Text) :
    solid (split separators trailing t).flatten = solid (unseparated separators [] t) ∧
    ∀ item ∈ split separators trailing t,
      split separators true item = [item] ∧
      split separators false item = if item = [] then [] else [item] := by
  refine ⟨?_, fun item hitem => ?_⟩
  · rw [split_eq, solid_items, ← flatten_pieces]
    rfl
  · obtain ⟨p, hp, rfl⟩ := exists_piece_of_mem_items hitem
    -- the piece was read from the start, and blanks at its ends leave no separator bare
    have hpass : Passes separators start p := by
      rcases List.mem_cons.1 hp with rfl | hp
      · exact (passes_pieces start t).1
      · exact (passes_pieces start t).2 p hp
    have htrim : Passes separators start (trim p) := hpass.trim Scan.sound_start rfl
    obtain ⟨htrue, hfalse⟩ := split_of_passes htrim
    rw [htrue, hfalse, trimmed_trim p]
    refine ⟨rfl, ?_⟩
    split_ifs with hnil
    · rw [hnil]
      rfl
    · rw [itemOf_of_ne_nil hnil, trimmed_trim p]

theorem items_of_split_function :
    let item := "(min-width: calc(1px, 2px))".toList
    item ∈ split [','] true "(min-width: calc(1px, 2px)), \"a,b\"".toList ∧
    split [','] true item = [item] ∧
    split [','] false item = if item = [] then [] else [item] := by
  intro item
  have hmem : item ∈ split [','] true "(min-width: calc(1px, 2px)), \"a,b\"".toList := by
    decide +kernel
  exact ⟨hmem, (items_of_split [','] true _).2 item hmem⟩

/-! ### Blanks around a list -/

/-- The items of pieces that are not empty. -/
def filled (ps : List Text) : List Text := (ps.map trim).filter (· ≠ [])

theorem filled_cons_of_blank {b : Text} (hb : Blank b) (ps : List Text) :
    filled (b :: ps) = filled ps := by
  have htrim : trim b = [] := by rw [trim, trimStart_of_blank hb]; rfl
  simp [filled, htrim]

theorem filled_cons_congr {p q : Text} {ps qs : List Text} (hp : trim p = trim q)
    (hps : filled ps = filled qs) : filled (p :: ps) = filled (q :: qs) := by
  unfold filled at *
  rw [List.map_cons, List.map_cons, hp, List.filter_cons, List.filter_cons, hps]

theorem filter_items (piece : Text) (others : List Text) :
    (items false piece others).filter (· ≠ []) = filled (piece :: others) := by
  have hof : ∀ p, (itemOf p).filter (· ≠ []) = filled [p] := fun p => by
    by_cases hp : p = []
    · rw [hp]; rfl
    · rw [itemOf_of_ne_nil hp]; rfl
  induction others generalizing piece with
  | nil => exact hof piece
  | cons next others ih =>
    rw [items, List.filter_append, ih, hof]
    exact (List.filter_append ..).symm

/-- The pieces of blanks are blank. -/
theorem blank_pieces {b : Text} (hb : Blank b) (s : Scan) :
    Blank (pieces separators s b).1 ∧ filled (pieces separators s b).2 = [] := by
  induction b generalizing s with
  | nil => exact ⟨blank_nil, rfl⟩
  | cons c b ih =>
    obtain ⟨hc, hb⟩ := List.forall_mem_cons.1 hb
    cases hstop : s.stopsAt separators c with
    | true =>
      rw [pieces_cons_of_stop hstop]
      exact ⟨blank_nil, (filled_cons_of_blank (ih hb start).1 _).trans (ih hb start).2⟩
    | false =>
      rw [pieces_cons_of_pass hstop]
      exact ⟨(blank_singleton hc).append (ih hb _).1, (ih hb _).2⟩

/-- **Blanks behind a text** lengthen its first piece by blanks at most, and fill no other. -/
theorem pieces_append_blank {b : Text} (hb : Blank b) (s : Scan) (t : Text) :
    (∃ b', Blank b' ∧ (pieces separators s (t ++ b)).1 = (pieces separators s t).1 ++ b') ∧
      filled (pieces separators s (t ++ b)).2 = filled (pieces separators s t).2 := by
  induction t generalizing s with
  | nil => exact ⟨⟨_, (blank_pieces hb s).1, rfl⟩, (blank_pieces hb s).2⟩
  | cons c t ih =>
    rw [List.cons_append]
    cases hstop : s.stopsAt separators c with
    | true =>
      rw [pieces_cons_of_stop hstop, pieces_cons_of_stop hstop]
      obtain ⟨⟨b', hb', hfirst⟩, hothers⟩ := ih start
      refine ⟨⟨[], blank_nil, rfl⟩, filled_cons_congr ?_ hothers⟩
      rw [hfirst]
      exact trim_append blank_nil hb' _
    | false =>
      rw [pieces_cons_of_pass hstop, pieces_cons_of_pass hstop]
      obtain ⟨⟨b', hb', hfirst⟩, hothers⟩ := ih (s.step c)
      exact ⟨⟨b', hb', by rw [hfirst, List.cons_append]⟩, hothers⟩

/-- **Blanks before a text** fill no piece. -/
theorem filled_pieces_append {b : Text} (hb : Blank b) (t : Text) :
    filled ((pieces separators start (b ++ t)).1 :: (pieces separators start (b ++ t)).2)
      = filled ((pieces separators start t).1 :: (pieces separators start t).2) := by
  induction b with
  | nil => rfl
  | cons c b ih =>
    obtain ⟨hc, hb⟩ := List.forall_mem_cons.1 hb
    rw [List.cons_append, ← ih hb]
    cases hstop : start.stopsAt separators c with
    | true =>
      rw [pieces_cons_of_stop hstop]
      exact filled_cons_of_blank blank_nil _
    | false =>
      rw [pieces_cons_of_pass hstop,
        Scan.step_of_inert Scan.sound_start (Scan.isControl_of_blank hc), Scan.settle_start]
      exact filled_cons_congr (trim_cons hc _) rfl

/-- **Trimming a text leaves its items as they are**, but for empty ones. -/
theorem filter_split_trim (t : Text) :
    (split separators false (trim t)).filter (· ≠ [])
      = (split separators false t).filter (· ≠ []) := by
  obtain ⟨b, b', hb, hb', ht⟩ := exists_trim t
  conv_rhs => rw [ht]
  rw [List.append_assoc, split_eq, split_eq, filter_items, filter_items, filled_pieces_append hb]
  obtain ⟨⟨b'', hb'', hfirst⟩, hothers⟩ := @pieces_append_blank separators b' hb' start (trim t)
  refine (filled_cons_congr ?_ hothers).symm
  rw [hfirst]
  exact trim_append blank_nil hb'' _

end Text
end MediaGrouping
