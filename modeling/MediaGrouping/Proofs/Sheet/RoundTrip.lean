/-
# Writing a sheet and reading it again

A tree of normal nodes is written as a row of its segments just if its nodes are
settled (`Tree.row_lines`). So a canonical tree is read back from what is written, up
to positions (`Tree.parse_css`), and a sheet that was read is read back just if it is
rereadable: its text does not begin with a byte order mark, and its nodes are settled
(`Tree.parse_css_of_parse`). Not every sheet that can be read is: trimming may cut the
blank that an escape was for, the end of the sheet may stand for the end of a string,
and blanks may stand before a byte order mark (`Tree.not_reread`).
-/

import MediaGrouping.Proofs.Sheet.Reading

namespace MediaGrouping

open Text (ink)
open Text.Scan (Closed start)

/-- **A canonical node**: it is regular, and a scan passes over its text and is at the
start behind it. -/
structure Content.Canonical (c : Content) : Prop where
  regular : c.Regular
  closed : Closed Segment.stops c.prelude

instance (c : Content) : Decidable c.Canonical :=
  decidable_of_iff (c.Regular ∧ Closed Segment.stops c.prelude)
    ⟨fun h => ⟨h.1, h.2⟩, fun h => ⟨h.1, h.2⟩⟩

namespace Content.Canonical

variable {c : Content}

theorem normal (h : c.Canonical) : c.Normal := by
  refine ⟨h.regular, h.closed.passes, fun _ => ?_⟩
  rw [Text.Scan.run_append, h.closed.run]
  rfl

theorem settled (h : c.Canonical) : c.Settled := fun _ => h.closed.run

end Content.Canonical

namespace Tree

open Segment (Row)

variable {P : Content → Prop} {t : Tree} {ts : List Tree} {c : Content} {css : Text}
  {segs ss : List Segment} {rest : Text}

/-- **A canonical tree**: a root above canonical nodes, of which only those written with
braces have children, and whose text does not begin with a byte order mark. -/
structure Canonical (t : Tree) : Prop where
  root : t.content = .root
  nodes : ∀ c ∈ t.children, c.Shaped Content.Canonical
  unmarked : t.css.head? ≠ some '\uFEFF'

/-- **A rereadable tree**: its nodes are settled, and its text does not begin with a byte
order mark. -/
structure Rereadable (t : Tree) : Prop where
  settled : ∀ c ∈ t.children, c.Shaped Content.Settled
  unmarked : t.css.head? ≠ some '\uFEFF'

theorem shaped_node {p : Option Position} {cs : List Tree} :
    (node c p cs).Shaped P ↔
      P c ∧ (c.isBlock = false → cs = []) ∧ ∀ t ∈ cs, t.Shaped P := by
  constructor
  · rintro ⟨hc, hnil, hcs⟩
    exact ⟨hc, hnil, hcs⟩
  · rintro ⟨hc, hnil, hcs⟩
    exact .node hc hnil hcs

/-! ### Rows of what is written -/

theorem gap_of_mem_indent (depth : Nat) : ∀ c ∈ indent depth, Lexeme.isGap c = true := by
  intro c hc
  rw [List.eq_of_mem_replicate hc]
  rfl

/-- **A block is a row of its segments** just if what is inside is one. -/
theorem row_blockLines (hc : c.Normal) (hb : c.isBlock = true) (depth : Nat)
    {inner : List Text} {p : Prop}
    (hinner : ∀ rest ss, Row (endLines inner ++ rest) (segs ++ ss) ↔ p ∧ Row rest ss) :
    Row (endLines (blockLines depth c.text inner) ++ rest)
      (.opening c :: (segs ++ [.closing]) ++ ss) ↔ p ∧ Row rest ss := by
  have hss : .opening c :: (segs ++ [.closing]) ++ ss = .opening c :: (segs ++ .closing :: ss) := by
    simp
  rw [hss, blockLines]
  split_ifs with hempty
  · have htext : endLines [indent depth ++ c.text ++ [' ', '{', '}']] ++ rest
        = indent depth ++ (c.text ++ ' ' :: '{' :: '}' :: '\n' :: rest) := by
      simp [endLines_singleton]
    have hnone := hinner ('}' :: '\n' :: rest) (.closing :: ss)
    rw [List.isEmpty_iff.1 hempty] at hnone
    rw [htext, Segment.row_gaps (gap_of_mem_indent depth), Segment.row_opening hc hb]
    refine hnone.trans ?_
    rw [Segment.row_closing, Segment.row_gap rfl]
  · have htext :
        endLines ((indent depth ++ c.text ++ [' ', '{']) :: inner ++ [indent depth ++ ['}']])
          ++ rest
        = indent depth ++ (c.text ++ ' ' :: '{' :: '\n' ::
            (endLines inner ++ (indent depth ++ ('}' :: '\n' :: rest)))) := by
      rw [endLines_append, ← List.singleton_append, endLines_append, endLines_singleton,
        endLines_singleton]
      simp
    rw [htext, Segment.row_gaps (gap_of_mem_indent depth), Segment.row_opening hc hb,
      Segment.row_gap rfl, hinner, Segment.row_gaps (gap_of_mem_indent depth),
      Segment.row_closing, Segment.row_gap rfl]

mutual

/-- **A tree is written as a row of its segments** just if its nodes are settled. -/
theorem row_lines (depth : Nat) :
    ∀ {t : Tree}, t.Shaped Content.Normal → ∀ (rest : Text) (ss : List Segment),
      Row (endLines (lines depth t) ++ rest) (t.segments ++ ss)
        ↔ t.Shaped Content.Settled ∧ Row rest ss
  | .node c p cs, .node hc hnil hcs, rest, ss => by
    cases hb : c.isBlock with
    | true =>
      have hsettled : c.Settled := fun hno => by
        rw [hb] at hno
        cases hno
      have hiff : (node c p cs).Shaped Content.Settled ↔ ∀ t ∈ cs, t.Shaped Content.Settled :=
        shaped_node.trans ⟨fun h => h.2.2, fun h => ⟨hsettled, hnil, h⟩⟩
      rw [lines_of_block hb, segments_of_block hb, hiff]
      exact row_blockLines hc hb depth (row_linesAll (depth + 1) hcs)
    | false =>
      have hroot : c.isRoot = false := by
        cases c with
        | root => cases hc.regular
        | _ => rfl
      obtain rfl := hnil hb
      have hiff : (node c p []).Shaped Content.Settled ↔ c.Settled :=
        shaped_node.trans
          ⟨fun h => h.1, fun h => ⟨h, fun _ => rfl, List.forall_mem_nil _⟩⟩
      have htext : endLines [indent depth ++ (c.text ++ c.ending)] ++ rest
          = indent depth ++ (c.text ++ (c.ending ++ '\n' :: rest)) := by
        simp [endLines_singleton]
      rw [lines_of_single hb hroot, segments_of_single hb, hiff, htext,
        Segment.row_gaps (gap_of_mem_indent depth), List.singleton_append,
        Segment.row_single hc hb, Segment.row_gap rfl]

theorem row_linesAll (depth : Nat) :
    ∀ {ts : List Tree}, (∀ t ∈ ts, t.Shaped Content.Normal) →
      ∀ (rest : Text) (ss : List Segment),
        Row (endLines (linesAll depth ts) ++ rest) (segmentsAll ts ++ ss)
          ↔ (∀ t ∈ ts, t.Shaped Content.Settled) ∧ Row rest ss
  | [], _, rest, ss => ⟨fun h => ⟨List.forall_mem_nil _, h⟩, fun h => h.2⟩
  | t :: ts, hts, rest, ss => by
    rw [List.forall_mem_cons] at hts
    rw [linesAll, endLines_append, segmentsAll, List.append_assoc, List.append_assoc,
      row_lines depth hts.1, row_linesAll depth hts.2, List.forall_mem_cons, and_assoc]

end

theorem row_css (hts : ∀ t ∈ ts, t.Shaped Content.Normal) (p : Option Position) :
    Row (node .root p ts).css (segmentsAll ts) ↔ ∀ t ∈ ts, t.Shaped Content.Settled := by
  have h := row_linesAll 0 hts [] []
  rw [List.append_nil, List.append_nil] at h
  exact h.trans (and_iff_left .nil)

/-! ### Positions -/

mutual

/-- Positions are not written. -/
theorem lines_unplaced : ∀ (t : Tree) (depth : Nat), lines depth t.unplaced = lines depth t
  | .node c p cs, depth => by
    have hcs : ∀ depth, linesAll depth (unplacedAll cs) = linesAll depth cs :=
      linesAll_unplacedAll cs
    have hempty : (unplacedAll cs).isEmpty = cs.isEmpty := by cases cs <;> rfl
    cases c <;> simp only [unplaced, lines, hcs, hempty]

theorem linesAll_unplacedAll :
    ∀ (ts : List Tree) (depth : Nat), linesAll depth (unplacedAll ts) = linesAll depth ts
  | [], _ => rfl
  | t :: ts, depth => by
    rw [unplacedAll, linesAll, linesAll, lines_unplaced t depth, linesAll_unplacedAll ts depth]

end

theorem css_unplaced (t : Tree) : t.unplaced.css = t.css := by
  obtain ⟨c, p, cs⟩ := t
  have hlines := lines_unplaced (.node c p cs) 0
  rw [unplaced] at hlines ⊢
  cases c with
  | root => rw [css, css, linesAll_unplacedAll]
  | _ => exact congrArg (fun ls => (endLines ls).dropLast) hlines

mutual

theorem segments_unplaced : ∀ t : Tree, t.unplaced.segments = t.segments
  | .node c p cs => by rw [unplaced, segments, segments, segmentsAll_unplacedAll cs]

theorem segmentsAll_unplacedAll : ∀ ts : List Tree, segmentsAll (unplacedAll ts) = segmentsAll ts
  | [] => rfl
  | t :: ts => by
    rw [unplacedAll, segmentsAll, segmentsAll, segments_unplaced t, segmentsAll_unplacedAll ts]

end

/-! ### Reading again -/

/-- Normal nodes that are settled are read back. -/
theorem parse_css_of_settled (hr : t.content = .root)
    (hnormal : ∀ c ∈ t.children, c.Shaped Content.Normal) (hread : t.Rereadable) :
    (parse t.css).map unplaced = .ok t.unplaced := by
  obtain ⟨c, p, ts⟩ := t
  obtain rfl : c = .root := hr
  have hrow : Row (node .root p ts).css (segmentsAll ts) := (row_css hnormal p).2 hread.settled
  rw [← withoutMarks_of_head hread.unmarked] at hrow
  have hshaped : ∀ c ∈ ts, c.Shaped Content.Normal := hnormal
  obtain ⟨ts', hparse, hts'⟩ := parse_of_row hshaped hrow
  rw [hparse]
  show Except.ok (node .root none (unplacedAll ts')) = .ok (node .root none (unplacedAll ts))
  rw [hts']

/-- **A canonical tree is read back from what is written**, up to positions. -/
theorem parse_css (h : t.Canonical) : (parse t.css).map unplaced = .ok t.unplaced :=
  parse_css_of_settled h.root (fun c hc => (h.nodes c hc).imp fun _ => Content.Canonical.normal)
    ⟨fun c hc => (h.nodes c hc).imp fun _ => Content.Canonical.settled, h.unmarked⟩

/-- A statement, a block in a block, an empty header and a comment, read back. -/
theorem parse_css_nested :
    (parse (node .root none [node (.atRule ⟨"import".toList, "(;)".toList, false⟩) none [],
      node (.atRule ⟨"media".toList, [], true⟩) none [node (.rule []) none
        [node (.declaration ⟨"a".toList, [], true⟩) none [],
         node (.comment ⟨"b".toList, ['\n'], []⟩) none []]]]).css).map unplaced
      = .ok (node .root none [node (.atRule ⟨"import".toList, "(;)".toList, false⟩) none [],
      node (.atRule ⟨"media".toList, [], true⟩) none [node (.rule []) none
        [node (.declaration ⟨"a".toList, [], true⟩) none [],
         node (.comment ⟨"b".toList, ['\n'], []⟩) none []]]]) := by
  refine parse_css ⟨rfl, ?_, by decide⟩
  have hnone : ∀ {P : Content → Prop}, ∀ c ∈ ([] : List Tree), c.Shaped P :=
    List.forall_mem_nil _
  refine List.forall_mem_cons.2 ⟨.node (by decide) (fun _ => rfl) hnone, ?_⟩
  refine List.forall_mem_singleton.2 (.node (by decide) nofun ?_)
  refine List.forall_mem_singleton.2 (.node (by decide) nofun ?_)
  refine List.forall_mem_cons.2 ⟨.node (by decide) (fun _ => rfl) hnone, ?_⟩
  exact List.forall_mem_singleton.2 (.node (by decide) (fun _ => rfl) hnone)

/-- A byte order mark at the beginning is lost. -/
theorem head_of_ink (h : ink css = ink (withoutMarks css)) : css.head? ≠ some '\uFEFF' := by
  intro hm
  obtain ⟨rest, rfl⟩ := List.head?_eq_some_iff.1 hm
  have hdrop : withoutMarks ('\uFEFF' :: rest) = withoutMarks rest := List.dropWhile_cons_of_pos rfl
  have hsuffix : withoutMarks rest <:+ rest := List.dropWhile_suffix _
  have hlength := congrArg List.length h
  have hle : (ink (withoutMarks rest)).length ≤ (ink rest).length :=
    (hsuffix.sublist.filter _).length_le
  have hmark : ink ('\uFEFF' :: rest) = '\uFEFF' :: ink rest := rfl
  rw [hmark, hdrop, List.length_cons] at hlength
  omega

/-- The text of a tree does not depend on positions. -/
theorem css_eq_of_unplaced {t' : Tree} (h : t'.unplaced = t.unplaced) : t'.css = t.css := by
  rw [← css_unplaced t', h, css_unplaced]

/-- **What is read back is rereadable**: its text has the ink and the segments of the
text that it was read from. -/
theorem rereadable_of_unplaced {t' : Tree} (hnormal : ∀ c ∈ ts, c.Shaped Content.Normal)
    (h : parse (node .root none ts).css = .ok t')
    (hu : t'.unplaced = (node .root none ts).unplaced) : (node .root none ts).Rereadable := by
  obtain ⟨ts', rfl, hrow⟩ := row_of_parse h
  have hshaped := shaped_of_parse (fun hs _ => hs.shaped) h
  have hmarks := head_of_ink (css_eq_of_unplaced hu ▸ ink_css_of_row hshaped none hrow)
  have hts' : unplacedAll ts' = unplacedAll ts := (Tree.node.inj hu).2.2
  rw [withoutMarks_of_head hmarks, ← segmentsAll_unplacedAll, hts', segmentsAll_unplacedAll] at hrow
  exact ⟨(row_css hnormal none).1 hrow, hmarks⟩

/-- **A sheet that was read is read back just if it is rereadable**, and then it is
written the same again. -/
theorem parse_css_of_parse (h : parse css = .ok t) :
    ((parse t.css).map unplaced = .ok t.unplaced ↔ t.Rereadable) ∧
      (t.Rereadable → (parse t.css).map Tree.css = .ok t.css) := by
  obtain ⟨ts, rfl, -⟩ := row_of_parse h
  have hnormal := normal_of_parse h
  have hback := parse_css_of_settled (t := node .root none ts) rfl hnormal
  cases hparse : parse (node .root none ts).css with
  | error e =>
    rw [hparse] at hback
    exact ⟨⟨nofun, hback⟩, fun hread => absurd (hback hread) nofun⟩
  | ok t' =>
    rw [hparse] at hback
    refine ⟨⟨fun hagain => ?_, hback⟩, fun hread => ?_⟩
    · exact rereadable_of_unplaced hnormal hparse (Except.ok.inj hagain)
    · exact congrArg Except.ok (css_eq_of_unplaced (Except.ok.inj (hback hread)))

/-- An escape that is not cut, since it stands in parentheses. -/
theorem parse_css_of_parse_escape :
    ∃ t, parse "a:(b\\ ) ;".toList = .ok t ∧ t.Rereadable ∧
      (parse t.css).map Tree.css = .ok t.css := by
  obtain ⟨t, ht, hread⟩ : ∃ t, parse "a:(b\\ ) ;".toList = .ok t ∧ t.Rereadable := by
    refine ⟨node .root none [node (.declaration ⟨['a'], "(b\\ )".toList, false⟩) (some .start) []],
      rfl, List.forall_mem_singleton.2 (.node (fun _ => rfl) (fun _ => rfl) ?_), by decide⟩
    exact List.forall_mem_nil _
  exact ⟨t, ht, hread, (parse_css_of_parse ht).2 hread⟩

/-- Whether a sheet is written the same again when it is read from what is written. -/
def Stable (css : Text) : Prop := ∀ t, parse css = .ok t → (parse t.css).map Tree.css = .ok t.css

/-- **Not every sheet is written the same again**: a mark may stand behind a blank, an
escape before a blank that is trimmed, or a string may be open at the end. -/
theorem not_reread :
    ¬ Stable " \uFEFFa\x7b\x7d".toList ∧ ¬ Stable "a:b\\ ;".toList ∧ ¬ Stable "a:'b".toList := by
  refine ⟨?_, ?_, ?_⟩
  all_goals
    intro h
    have hlength := congrArg (fun r => r.toOption.map List.length) (h _ rfl)
    revert hlength
    decide

end Tree
end MediaGrouping
