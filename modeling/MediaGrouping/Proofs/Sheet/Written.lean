/-
# Nodes and their texts

A node is written with a text of its own (`Content.text`), to which braces or a
semicolon are added (`Tree.lines_of_block`, `Tree.lines_of_single`). What stands between
the marks of a comment is its text with blanks around (`Comment.ofRaw_raw`,
`Comment.raw_ofRaw`).
-/

import MediaGrouping.Proofs.Sheet.Segments
import MediaGrouping.Proofs.Text.Blank
import MediaGrouping.Sheet.Printer

namespace MediaGrouping

open Text (Blank Trimmed)

/-- A declaration as written, its semicolon aside. -/
def Declaration.text (d : Declaration) : Text :=
  d.property ++ [':', ' '] ++ d.value ++ if d.important then " !important".toList else []

/-- A node as written, without its braces, what is inside them, and its semicolon. -/
def Content.text : Content → Text
  | .root => []
  | .atRule r => r.header
  | .rule selector => selector
  | .declaration d => d.text
  | .comment c => c.print

/-- What is written after a node without braces. -/
def Content.ending : Content → Text
  | .comment _ => []
  | _ => [';']

theorem Content.gap_of_mem_ending (c : Content) : ∀ d ∈ c.ending, Lexeme.isGap d = true := by
  have hmark : ∀ d ∈ [';'], Lexeme.isGap d = true := List.forall_mem_singleton.2 rfl
  cases c with
  | comment c => exact List.forall_mem_nil _
  | _ => exact hmark

/-- A segment as written, its semicolon aside. -/
def Segment.text : Segment → Text
  | .opening header => header.text ++ ['{']
  | .closing => ['}']
  | .single content => content.text

theorem Declaration.text_eq (d : Declaration) : d.text = d.property ++ ':' ::
    ' ' :: (d.value ++ if d.important then " !important".toList else []) := by
  rw [text, List.append_assoc, List.append_assoc]
  rfl

namespace Comment

/-- What stands between the marks of a comment. -/
def raw (c : Comment) : Text := c.left ++ c.text ++ c.right

/-- **A regular comment** has a trimmed text with blanks around it, all of them on the
left if the text is empty. -/
structure Regular (c : Comment) : Prop where
  left : Blank c.left
  text : Trimmed c.text
  right : Blank c.right
  right_eq_nil : c.text = [] → c.right = []

variable {c : Comment}

theorem print_eq (c : Comment) : c.print = '/' :: '*' :: (c.raw ++ ['*', '/']) := by
  simp [print, raw]

/-- **A comment is known by what stands between its marks.** -/
theorem ofRaw_raw (h : c.Regular) : ofRaw c.raw = c := by
  obtain ⟨text, left, right⟩ := c
  have htrim : Text.trim (left ++ text ++ right) = text :=
    (Text.trim_append h.left h.right text).trans h.text
  rw [ofRaw, raw]
  simp only [htrim]
  by_cases hne : text = []
  · obtain rfl : right = [] := h.right_eq_nil hne
    subst hne
    rw [if_pos List.isEmpty_nil, List.append_nil, List.append_nil]
  · rw [if_neg (by simpa using hne), Text.leadingBlanks_append h.left h.text hne,
      Text.trailingBlanks_append h.right h.text hne]

/-- Whatever stands between the marks of a comment is what some regular comment has
there. -/
theorem exists_regular (t : Text) : ∃ c : Comment, c.Regular ∧ c.raw = t := by
  by_cases hne : Text.trim t = []
  · have hb : Blank t := by
      obtain ⟨b, b', hb, hb', ht⟩ := Text.exists_trim t
      rw [hne, List.append_nil] at ht
      exact ht ▸ hb.append hb'
    exact ⟨⟨[], t, []⟩, ⟨hb, rfl, Text.blank_nil, fun _ => rfl⟩, by simp [raw]⟩
  · obtain ⟨b, b', hb, hb', ht⟩ := Text.exists_trim t
    exact ⟨⟨Text.trim t, b, b'⟩, ⟨hb, Text.trimmed_trim t, hb', fun he => absurd he hne⟩, ht.symm⟩

theorem regular_ofRaw (t : Text) : (ofRaw t).Regular := by
  obtain ⟨c, hc, rfl⟩ := exists_regular t
  rwa [ofRaw_raw hc]

theorem raw_ofRaw (t : Text) : (ofRaw t).raw = t := by
  obtain ⟨c, hc, rfl⟩ := exists_regular t
  rw [ofRaw_raw hc]

end Comment

namespace Tree

variable {c : Content}

/-- **A block is written with its text ahead of the brace.** -/
theorem lines_of_block (h : c.isBlock = true) (depth : Nat) (p : Option Position)
    (cs : List Tree) :
    lines depth (.node c p cs) = blockLines depth c.text (linesAll (depth + 1) cs) := by
  cases c with
  | rule selector => rw [lines, Content.text]
  | atRule r =>
    have hr : r.hasBlock = true := h
    rw [lines, if_neg (by simp [hr]), Content.text]
  | root => cases h
  | declaration d => cases h
  | comment c => cases h

/-- **A node without braces is written on one line**, and so ended. -/
theorem lines_of_single (h : c.isBlock = false) (hr : c.isRoot = false) (depth : Nat)
    (p : Option Position) :
    lines depth (.node c p []) = [indent depth ++ (c.text ++ c.ending)] := by
  cases c with
  | root => cases hr
  | rule selector => cases h
  | atRule r =>
    have hb : r.hasBlock = false := h
    rw [lines, if_pos (by simp [hb]), List.append_assoc]
    rfl
  | declaration d => rw [lines]; rfl
  | comment c => rw [lines, Content.ending, List.append_nil]; rfl

theorem endLines_append (ls ms : List Text) : endLines (ls ++ ms) = endLines ls ++ endLines ms :=
  List.flatMap_append

theorem endLines_singleton (l : Text) : endLines [l] = l ++ ['\n'] := List.flatMap_singleton ..

end Tree
end MediaGrouping
