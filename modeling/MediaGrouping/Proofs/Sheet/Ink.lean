/-
# The ink of a sheet

The ink of a text is what is left of it without blanks and semicolons, which are all
that reading and writing may change. The text that a segment takes up has the ink of
the segment as written, up to the semicolons around it (`Segment.Spelled.solid`), and a
tree is written with the ink of its segments (`Tree.ink_lines`). So no character of a
sheet other than blanks and semicolons is lost, added, doubled or moved when the sheet
is read and written again (`Tree.ink_css_of_parse`).
-/

import MediaGrouping.Proofs.Sheet.Assembling
import MediaGrouping.Proofs.Sheet.Written

namespace MediaGrouping

open Text (solid)

namespace Text

/-- **The ink of a text**: its characters other than blanks and semicolons. -/
def ink (t : Text) : Text := t.filter fun c => !isBlank c && c != ';'

variable {t u : Text} {c : Char}

/-- **The ink is what stands in no gap**, as gaps are read. -/
theorem ink_eq_filter_gap (t : Text) : ink t = t.filter (!Lexeme.isGap ·) :=
  List.filter_congr fun d _ => by rw [Lexeme.isGap, Bool.not_or]; rfl

theorem ink_append (t u : Text) : ink (t ++ u) = ink t ++ ink u := List.filter_append ..

theorem ink_of_gap (h : ∀ d ∈ t, Lexeme.isGap d = true) : ink t = [] := by
  rw [ink_eq_filter_gap]
  exact List.filter_eq_nil_iff.2 fun d hd => by simp [h d hd]

theorem ink_cons_of_gap (h : Lexeme.isGap c = true) (t : Text) : ink (c :: t) = ink t := by
  rw [ink_eq_filter_gap, ink_eq_filter_gap]
  exact List.filter_cons_of_neg (by simp [h])

/-- A text has the ink of its solid characters. -/
theorem ink_solid (t : Text) : ink (solid t) = ink t := by
  rw [ink, solid, List.filter_filter, ink]
  refine List.filter_congr fun d _ => ?_
  rw [Bool.and_right_comm, Bool.and_self]

theorem ink_eq_of_solid_eq (h : solid t = solid u) : ink t = ink u := by
  rw [← ink_solid t, h, ink_solid]

end Text

open Text (ink)

namespace Segment

variable {s : Segment} {ss : List Segment} {t taken : Text}

theorem solid_header (r : AtRule) : solid r.header = solid ('@' :: r.name) ++ solid r.params := by
  rw [AtRule.header]
  split_ifs with h
  · rw [List.isEmpty_iff.1 h]
    exact (List.append_nil _).symm
  · rw [List.cons_append, ← List.cons_append, Text.solid_append]
    rfl

theorem solid_splitImportant (v : Text) :
    solid (splitImportant v).1 ++ solid (if (splitImportant v).2 then " !important".toList else [])
      = solid v := by
  rw [splitImportant]
  cases h : Text.dropTail? "!important".toList v with
  | none => exact List.append_nil _
  | some plain =>
    have hv := Text.eq_append_of_dropTail? h
    show solid (Text.trimEnd plain) ++ solid " !important".toList = solid v
    rw [Text.solid_trimEnd, hv, Text.solid_append]
    rfl

/-- **The text that a segment is read from has the characters of the segment**, blanks
aside. -/
theorem Spelled.solid (h : s.Spelled taken) : Text.solid taken = Text.solid s.text := by
  cases h with
  | closing => rfl
  | block | statement =>
    simp only [text, Content.text, Text.solid_append, solid_header, Text.solid_trim]
  | rule =>
    rw [text, Content.text, Text.solid_append, Text.solid_append, Text.solid_trim]
  | @declaration p rest =>
    have hsplit := solid_splitImportant (Text.trim rest)
    rw [Text.solid_trim] at hsplit
    have hcolon : Text.solid (':' :: rest) = Text.solid [':', ' '] ++ Text.solid rest := rfl
    dsimp only [text, Content.text, Declaration.text]
    rw [Text.solid_append, Text.solid_append, Text.solid_append, Text.solid_append, Text.solid_trim,
      List.append_assoc, hsplit, hcolon, List.append_assoc]
  | comment =>
    rw [text, Content.text, Comment.print_eq, Comment.raw_ofRaw, List.cons_append, List.cons_append]

theorem solid_read (h : Segment.read t = .ok (s, taken)) : solid taken = solid s.text :=
  (spelled_of_read h).1.solid

/-- The ink of segments. -/
def inkAll (ss : List Segment) : Text := ss.flatMap fun s => ink s.text

theorem inkAll_append (ss ss' : List Segment) : inkAll (ss ++ ss') = inkAll ss ++ inkAll ss' :=
  List.flatMap_append

theorem inkAll_cons (s : Segment) (ss : List Segment) :
    inkAll (s :: ss) = ink s.text ++ inkAll ss :=
  List.flatMap_cons

/-- **A row has the ink of its segments.** -/
theorem Row.ink (h : Row t ss) : Text.ink t = inkAll ss := by
  induction h with
  | nil => rfl
  | gap hc _ ih => rw [Text.ink_cons_of_gap hc, ih]
  | read _ hr ht _ ih =>
    rw [ht, Text.ink_append, Text.ink_eq_of_solid_eq (solid_read hr), ih, inkAll_cons]

end Segment

namespace Tree

open Segment (inkAll)

variable {t : Tree} {ts : List Tree} {css : Text}

theorem ink_indent (depth : Nat) : ink (indent depth) = [] :=
  Text.ink_of_gap fun _ hc => (List.eq_of_mem_replicate hc).symm ▸ rfl

theorem ink_line (depth : Nat) (l : Text) : ink (endLines [indent depth ++ l]) = ink l := by
  rw [endLines_singleton, Text.ink_append, Text.ink_append, ink_indent, List.nil_append]
  exact List.append_nil _

/-- **A block is written with the ink of its header and of what is inside.** -/
theorem ink_blockLines (depth : Nat) (header : Text) (inner : List Text) :
    ink (endLines (blockLines depth header inner))
      = ink header ++ ['{'] ++ ink (endLines inner) ++ ['}'] := by
  rw [blockLines]
  split_ifs with h
  · rw [List.isEmpty_iff.1 h, List.append_assoc, ink_line, Text.ink_append]
    simp only [List.append_assoc]
    rfl
  · rw [endLines_append, ← List.singleton_append, endLines_append, List.append_assoc (indent depth),
      Text.ink_append, Text.ink_append, ink_line, ink_line, Text.ink_append]
    rfl

/-- A block has the ink of what opens and closes it, and of what is inside. -/
theorem inkAll_block (c : Content) (ss : List Segment) :
    inkAll (.opening c :: (ss ++ [.closing])) = ink c.text ++ ['{'] ++ inkAll ss ++ ['}'] := by
  rw [Segment.inkAll_cons, Segment.inkAll_append, Segment.text, Text.ink_append, List.append_assoc,
    List.append_assoc, List.append_assoc]
  rfl

theorem ink_text_ending (c : Content) : ink (c.text ++ c.ending) = ink c.text := by
  rw [Text.ink_append, Text.ink_of_gap c.gap_of_mem_ending, List.append_nil]

mutual

/-- **A tree is written with the ink of its segments.** -/
theorem ink_lines (depth : Nat) :
    ∀ {t : Tree}, t.Shaped (·.isRoot = false) →
      ink (endLines (lines depth t)) = inkAll t.segments
  | .node c p cs, .node hr hnil hcs => by
    cases hb : c.isBlock with
    | true =>
      rw [lines_of_block hb, segments_of_block hb, ink_blockLines, ink_linesAll (depth + 1) hcs,
        inkAll_block]
    | false =>
      rw [hnil hb, lines_of_single hb hr, segments_of_single hb, ink_line, ink_text_ending]
      exact (List.append_nil _).symm

theorem ink_linesAll (depth : Nat) :
    ∀ {ts : List Tree}, (∀ t ∈ ts, t.Shaped (·.isRoot = false)) →
      ink (endLines (linesAll depth ts)) = inkAll (segmentsAll ts)
  | [], _ => rfl
  | t :: ts, hts => by
    rw [List.forall_mem_cons] at hts
    rw [linesAll, endLines_append, Text.ink_append, ink_lines depth hts.1, ink_linesAll depth hts.2,
      segmentsAll, Segment.inkAll_append]

end

/-- **A sheet is written with the ink of any row of its segments.** -/
theorem ink_css_of_row (hts : ∀ t ∈ ts, t.Shaped (·.isRoot = false)) (p : Option Position)
    (h : Segment.Row css (segmentsAll ts)) : ink (node .root p ts).css = ink css :=
  (ink_linesAll 0 hts).trans h.ink.symm

/-- **No ink is lost, added or moved** when a sheet is read and written again. -/
theorem ink_css_of_parse (h : parse css = .ok t) : ink t.css = ink (withoutMarks css) := by
  obtain ⟨ts, rfl, hrow⟩ := row_of_parse h
  exact ink_css_of_row (shaped_of_parse (fun hs _ => hs.shaped) h) none hrow

/-- Marks, blanks and semicolons go; what is left stays as it was. -/
theorem ink_css_of_parse_marked :
    ∃ t, parse "\uFEFFa  b \x7b;; c :d!important\x7d".toList = .ok t ∧
      ink t.css = ink "a  b \x7b;; c :d!important\x7d".toList := by
  obtain ⟨t, ht⟩ : ∃ t, parse "\uFEFFa  b \x7b;; c :d!important\x7d".toList = .ok t := ⟨_, rfl⟩
  have hmarks : withoutMarks "\uFEFFa  b \x7b;; c :d!important\x7d".toList
      = "a  b \x7b;; c :d!important\x7d".toList := by decide
  exact ⟨t, ht, hmarks ▸ ink_css_of_parse ht⟩

end Tree
end MediaGrouping
