/-
# The segments of a sheet

A text is a row of segments if it can be read as these segments, one after the
other, with gaps between them (`Segment.Row`). A tree has segments too: a node
written with braces is opened and closed around the segments of its children, any
other node is a single one (`Tree.segments`). The lexemes of a text make it a row
(`Lexeme.row_of_scan`), and a row has the lexemes of its segments
(`Lexeme.scanFrom_of_row`). Where each segment was read, and why no more was, is kept
in the passage that the walk makes through the text (`Lexeme.Passage`,
`Lexeme.passage_scan`).
-/

import MediaGrouping.Proofs.Sheet.Spelling
import MediaGrouping.Sheet.Parser

namespace MediaGrouping

/-- Whether a node is written with braces. -/
def Content.isBlock : Content → Bool
  | .rule _ => true
  | .atRule r => r.hasBlock
  | _ => false

namespace Tree

mutual

/-- The segments of a tree, in their order. -/
def segments : Tree → List Segment
  | .node c _ children =>
    if c.isBlock then .opening c :: segmentsAll children ++ [.closing] else [.single c]

/-- The segments of several trees. -/
def segmentsAll : List Tree → List Segment
  | [] => []
  | t :: ts => t.segments ++ segmentsAll ts

end

mutual

/-- The tree without positions. -/
def unplaced : Tree → Tree
  | .node c _ children => .node c none (unplacedAll children)

/-- Trees without positions. -/
def unplacedAll : List Tree → List Tree
  | [] => []
  | t :: ts => t.unplaced :: unplacedAll ts

end

/-- Every node of a tree satisfies `P`, and only those written with braces have
children. -/
inductive Shaped (P : Content → Prop) : Tree → Prop where
  | node {content : Content} {source : Option Position} {children : List Tree} :
    P content → (content.isBlock = false → children = []) → (∀ c ∈ children, Shaped P c) →
    Shaped P (.node content source children)

variable {P Q : Content → Prop} {t : Tree}

theorem Shaped.imp (h : t.Shaped P) (hpq : ∀ c, P c → Q c) : t.Shaped Q := by
  induction h with
  | node hc hn _ ih => exact .node (hpq _ hc) hn ih

theorem segments_of_block {c : Content} (h : c.isBlock = true) (p : Option Position)
    (cs : List Tree) :
    (node c p cs).segments = .opening c :: (segmentsAll cs ++ [.closing]) := by
  rw [segments, if_pos h, List.cons_append]

theorem segments_of_single {c : Content} (h : c.isBlock = false) (p : Option Position)
    (cs : List Tree) : (node c p cs).segments = [.single c] := by
  rw [segments, if_neg (by simp [h])]

end Tree

namespace Segment

variable {P : Content → Prop} {s : Segment} {taken : Text}

/-- What a segment stands for satisfies `P`, and blocks are those with braces. -/
def Shaped (P : Content → Prop) : Segment → Prop
  | .opening header => P header ∧ header.isBlock = true
  | .closing => True
  | .single content => P content ∧ content.isBlock = false

/-- **A row of segments**: a text that is read as these segments, with gaps between
them. -/
inductive Row : Text → List Segment → Prop where
  | nil : Row [] []
  | gap {c : Char} {t : Text} {ss : List Segment} :
    Lexeme.isGap c = true → Row t ss → Row (c :: t) ss
  | read {c : Char} {t taken left : Text} {s : Segment} {ss : List Segment} :
    Lexeme.isGap c = false → Segment.read (c :: t) = .ok (s, taken) → c :: t = taken ++ left →
    Row left ss → Row (c :: t) (s :: ss)

/-- No segment stands for a sheet. -/
theorem Spelled.shaped (h : s.Spelled taken) : s.Shaped (·.isRoot = false) := by
  cases h with
  | closing => exact trivial
  | block => exact ⟨rfl, rfl⟩
  | statement => exact ⟨rfl, rfl⟩
  | rule => exact ⟨rfl, rfl⟩
  | declaration => exact ⟨rfl, rfl⟩
  | comment => exact ⟨rfl, rfl⟩

end Segment

namespace Lexeme

open Segment (Row)

variable {s : Segment} {ss : List Segment} {t taken left : Text} {c : Char}

/-- What the lexeme before still takes up is passed over. -/
theorem scanFrom_append (u t : Text) (p : Position) :
    scanFrom u.length p (u ++ t) = scanFrom 0 (p.advance u) t := by
  induction u generalizing p with
  | nil => rfl
  | cons c u ih => rw [List.cons_append, List.length_cons, scanFrom, ih, Position.advance_cons]

theorem scanFrom_gap (h : isGap c = true) (p : Position) (t : Text) :
    scanFrom 0 p (c :: t) = scanFrom 0 (p.step c) t := by
  rw [scanFrom, if_pos h]

/-- **A lexeme is read, and the walk goes on behind it.** -/
theorem scanFrom_read (hc : isGap c = false) (hr : Segment.read (c :: t) = .ok (s, taken))
    (ht : c :: t = taken ++ left) (p : Position) :
    scanFrom 0 p (c :: t) = (⟨s, p⟩ :: (scanFrom 0 (p.advance taken) left).1,
      (scanFrom 0 (p.advance taken) left).2) := by
  obtain ⟨d, rest, rfl⟩ := List.exists_cons_of_ne_nil (Segment.read_taken hr).1
  obtain rfl : c = d := (List.cons.inj ht).1
  have ht : t = rest ++ left := (List.cons.inj ht).2
  rw [scanFrom, if_neg (by simp [hc]), hr, Position.advance_cons, ← scanFrom_append, ← ht]
  rfl

/-- **A passage** through a text, from one offset to another: at the offsets given, and with
nothing but gaps in between, the segments given are read. -/
inductive Passage (t : Text) : Nat → List (Nat × Segment) → Nat → Prop where
  | done {k : Nat} : Passage t k [] k
  | gap {k j : Nat} {c : Char} {rest : Text} {ms : List (Nat × Segment)} :
    t.drop k = c :: rest → isGap c = true → Passage t (k + 1) ms j → Passage t k ms j
  | read {k j : Nat} {c : Char} {rest taken : Text} {s : Segment} {ms : List (Nat × Segment)} :
    t.drop k = c :: rest → isGap c = false → Segment.read (c :: rest) = .ok (s, taken) →
    Passage t (k + taken.length) ms j → Passage t k ((k, s) :: ms) j

/-- The lexeme of a segment at an offset of a text. -/
def placed (t : Text) (m : Nat × Segment) : Lexeme := ⟨m.2, Position.start.advance (t.take m.1)⟩

/-- Why a passage goes no further: the text ends there, or what follows cannot be read. -/
def Halts (t : Text) (j : Nat) : Option ParseError → Prop
  | none => j = t.length
  | some e => e.position = Position.start.advance (t.take j) ∧
    ∃ c rest, t.drop j = c :: rest ∧ isGap c = false ∧ Segment.read (c :: rest) = .error e.fault

theorem cut_behind {k : Nat} {u v : Text} (h : t.drop k = u ++ v) :
    t.take (k + u.length) = t.take k ++ u ∧ t.drop (k + u.length) = v := by
  constructor
  · rw [List.take_add, h, List.take_left]
  · rw [← List.drop_drop, h, List.drop_left]

/-- **The walk over a text is a passage** that goes no further, with the lexemes of its
segments. -/
theorem passage_scanFrom (t : Text) (n : Nat) : ∀ {k : Nat}, k ≤ t.length → t.length ≤ k + n →
    ∃ ms j, Passage t k ms j ∧
      (scanFrom 0 (Position.start.advance (t.take k)) (t.drop k)).1 = ms.map (placed t) ∧
      Halts t j (scanFrom 0 (Position.start.advance (t.take k)) (t.drop k)).2 := by
  induction n with
  | zero =>
    intro k hk hn
    obtain rfl : k = t.length := by omega
    rw [List.drop_length]
    exact ⟨[], _, .done, rfl, rfl⟩
  | succ n ih =>
    intro k hk hn
    cases hd : t.drop k with
    | nil =>
      have := List.drop_eq_nil_iff.1 hd
      exact ⟨[], k, .done, rfl, by unfold Halts scanFrom; omega⟩
    | cons c rest =>
      have hlen : t.length - k = rest.length + 1 := by rw [← List.length_drop, hd]; rfl
      cases hc : isGap c with
      | true =>
        obtain ⟨ms, j, hp, hls, hh⟩ := ih (k := k + 1) (by omega) (by omega)
        obtain ⟨htake, hdrop⟩ := cut_behind (u := [c]) hd
        rw [show k + 1 = k + [c].length from rfl, htake, hdrop, Position.advance_append] at hls hh
        rw [scanFrom_gap hc]
        exact ⟨ms, j, .gap hd hc hp, hls, hh⟩
      | false =>
        cases hr : Segment.read (c :: rest) with
        | error fault =>
          rw [scanFrom, if_neg (by simp [hc]), hr]
          exact ⟨[], k, .done, rfl, rfl, c, rest, hd, hc, hr⟩
        | ok r =>
          obtain ⟨s, taken⟩ := r
          obtain ⟨hne, left, ht⟩ := Segment.read_taken hr
          have hpos := List.length_pos_iff.2 hne
          have hlen' := congrArg List.length ht
          rw [List.length_append, List.length_cons] at hlen'
          obtain ⟨ms, j, hp, hls, hh⟩ := ih (k := k + taken.length) (by omega) (by omega)
          obtain ⟨htake, hdrop⟩ := cut_behind (hd.trans ht)
          rw [htake, hdrop, Position.advance_append] at hls hh
          rw [scanFrom_read hc hr ht]
          exact ⟨(k, s) :: ms, j, .read hd hc hr hp, by rw [hls]; rfl, hh⟩

/-- The lexemes of a text and the error after them are those of a passage from its beginning. -/
theorem passage_scan (t : Text) : ∃ ms j, Passage t 0 ms j ∧ (scan t).1 = ms.map (placed t) ∧
    Halts t j (scan t).2 :=
  passage_scanFrom t t.length (Nat.zero_le _) (by omega)

/-- A passage to the end of a text makes it a row. -/
theorem Passage.row {k j : Nat} {ms : List (Nat × Segment)} (h : Passage t k ms j)
    (hj : t.drop j = []) : Row (t.drop k) (ms.map Prod.snd) := by
  induction h with
  | done => exact hj ▸ .nil
  | @gap k j c rest ms hd hc _ ih =>
    have hdrop : t.drop (k + 1) = rest := (cut_behind (u := [c]) hd).2
    exact hd ▸ .gap hc (hdrop ▸ ih hj)
  | @read k j c rest taken s ms hd hc hr _ ih =>
    obtain ⟨-, left, ht⟩ := Segment.read_taken hr
    exact hd ▸ .read hc hr ht ((cut_behind (hd.trans ht)).2 ▸ ih hj)

/-- **The lexemes of a text that can be read make it a row.** -/
theorem row_of_scan {ls : List Lexeme} (h : scan t = (ls, none)) : Row t (ls.map segment) := by
  obtain ⟨ms, j, hp, hls, hh⟩ := passage_scan t
  rw [h] at hls hh
  have hsegments : ls.map segment = ms.map Prod.snd := by
    rw [show ls = _ from hls, List.map_map]
    rfl
  have hj : t.drop j = [] := by rw [show j = t.length from hh, List.drop_length]
  rw [hsegments]
  exact hp.row hj

/-- **A row can be read**, wherever it begins. -/
theorem scanFrom_of_row (h : Row t ss) :
    ∀ p, ∃ ls, scanFrom 0 p t = (ls, none) ∧ ls.map segment = ss := by
  induction h with
  | nil => exact fun p => ⟨[], rfl, rfl⟩
  | gap hc _ ih =>
    intro p
    rw [scanFrom_gap hc]
    exact ih (p.step _)
  | @read c t taken left s ss hc hr ht _ ih =>
    intro p
    obtain ⟨ls, hls, hss⟩ := ih (p.advance taken)
    refine ⟨⟨s, p⟩ :: ls, ?_, by rw [List.map_cons, hss]⟩
    rw [scanFrom_read hc hr ht, hls]

end Lexeme

end MediaGrouping
