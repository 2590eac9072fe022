/-
# Assembling lexemes into trees

Which trees lexemes make up is said without the blocks that are still open: a header, what makes up
the nodes of its block, and a closing brace make up a block (`Tree.Makes`). The trees that are
assembled are made up by the lexemes, and where there are none the first thing that is wrong is
reported (`Tree.assemble_spec`); lexemes that make up trees leave no trace but these trees for the
lexemes after them (`Tree.Makes.assemble`). So a text is read as the trees that its lexemes make up
(`Tree.parse_eq_ok_iff`). Reading a sheet is nothing but going from a row of segments to the tree
that has these: the segments of what was read are those of the text (`Tree.row_of_parse`), and a row
of the segments of a tree is read as that tree, up to positions (`Tree.parse_of_row`).
-/

import MediaGrouping.Proofs.Sheet.Segments

namespace MediaGrouping
namespace Tree

open Segment (Row)

variable {P : Content → Prop} {error : Option ParseError} {frames : List Frame}
  {nodes ts us : List Tree} {ls ks : List Lexeme} {t : Tree} {css : Text}

/-- **Lexemes that make up trees**: a block from its header to the brace that closes it, or a
node without a block. -/
inductive Makes : List Lexeme → List Tree → Prop where
  | nil : Makes [] []
  | single {l : Lexeme} {c : Content} {ls : List Lexeme} {ts : List Tree} :
    l.segment = .single c → Makes ls ts → Makes (l :: ls) (.node c (some l.position) [] :: ts)
  | block {l k : Lexeme} {c : Content} {inner ls : List Lexeme} {cs ts : List Tree} :
    l.segment = .opening c → Makes inner cs → k.segment = .closing → Makes ls ts →
    Makes (l :: (inner ++ k :: ls)) (.node c (some l.position) cs :: ts)

theorem Makes.append (h : Makes ls ts) (h' : Makes ks us) : Makes (ls ++ ks) (ts ++ us) := by
  induction h with
  | nil => exact h'
  | single hl _ ih => exact .single hl ih
  | block hl hi hk _ _ ih =>
    rw [List.cons_append, List.append_assoc, List.cons_append]
    exact .block hl hi hk ih

/-! ### The lexemes of trees -/

/-- **Trees have the segments of the lexemes that make them up.** -/
theorem Makes.segmentsAll (h : Makes ls ts) (hs : ∀ l ∈ ls, l.segment.Shaped P) :
    Tree.segmentsAll ts = ls.map Lexeme.segment := by
  induction h with
  | nil => rfl
  | single hl _ ih =>
    obtain ⟨hfirst, hs⟩ := List.forall_mem_cons.1 hs
    rw [hl] at hfirst
    rw [Tree.segmentsAll, segments_of_single hfirst.2, ih hs, List.map_cons, hl]
    rfl
  | block hl _ hk _ ihi ih =>
    obtain ⟨hfirst, hs⟩ := List.forall_mem_cons.1 hs
    obtain ⟨hinner, hs⟩ := List.forall_mem_append.1 hs
    rw [hl] at hfirst
    rw [Tree.segmentsAll, segments_of_block hfirst.2, ihi hinner,
      ih (List.forall_mem_cons.1 hs).2, List.map_cons, List.map_append, List.map_cons, hl, hk]
    simp

/-- **Trees are shaped as the lexemes that make them up.** -/
theorem Makes.shaped (h : Makes ls ts) (hs : ∀ l ∈ ls, l.segment.Shaped P) :
    ∀ t ∈ ts, t.Shaped P := by
  induction h with
  | nil => exact List.forall_mem_nil _
  | single hl _ ih =>
    obtain ⟨hfirst, hs⟩ := List.forall_mem_cons.1 hs
    rw [hl] at hfirst
    refine List.forall_mem_cons.2 ⟨.node hfirst.1 (fun _ => rfl) ?_, ih hs⟩
    exact List.forall_mem_nil _
  | block hl _ _ _ ihi ih =>
    obtain ⟨hfirst, hs⟩ := List.forall_mem_cons.1 hs
    obtain ⟨hinner, hs⟩ := List.forall_mem_append.1 hs
    rw [hl] at hfirst
    refine List.forall_mem_cons.2 ⟨.node hfirst.1 (fun hno => ?_) (ihi hinner),
      ih (List.forall_mem_cons.1 hs).2⟩
    rw [hfirst.2] at hno
    cases hno

mutual

/-- **Lexemes with the segments of a tree make up that tree**, up to positions. -/
theorem exists_makes : ∀ {t : Tree}, t.Shaped P → ∀ {ls : List Lexeme},
    ls.map Lexeme.segment = t.segments → ∃ t' : Tree, t'.unplaced = t.unplaced ∧ Makes ls [t']
  | .node c p cs, .node _ hnil hcs, ls, hls => by
    cases hb : c.isBlock with
    | false =>
      rw [segments_of_single hb] at hls
      obtain ⟨l, ls', rfl, hl, hls'⟩ := List.map_eq_cons_iff.1 hls
      obtain rfl := List.map_eq_nil_iff.1 hls'
      exact ⟨.node c (some l.position) [], by rw [hnil hb, unplaced, unplaced], .single hl .nil⟩
    | true =>
      rw [segments_of_block hb] at hls
      obtain ⟨l, ls', rfl, hl, hls'⟩ := List.map_eq_cons_iff.1 hls
      obtain ⟨inner, last, rfl, hinner, hlast⟩ := List.map_eq_append_iff.1 hls'
      obtain ⟨k, ls'', rfl, hk, hnone⟩ := List.map_eq_cons_iff.1 hlast
      obtain rfl := List.map_eq_nil_iff.1 hnone
      obtain ⟨cs', hcs', hmakes⟩ := exists_makesAll hcs hinner
      exact ⟨.node c (some l.position) cs', by rw [unplaced, unplaced, hcs'],
        .block hl hmakes hk .nil⟩

theorem exists_makesAll : ∀ {ts : List Tree}, (∀ t ∈ ts, t.Shaped P) → ∀ {ls : List Lexeme},
    ls.map Lexeme.segment = segmentsAll ts →
    ∃ ts' : List Tree, unplacedAll ts' = unplacedAll ts ∧ Makes ls ts'
  | [], _, ls, hls => by
    obtain rfl := List.map_eq_nil_iff.1 hls
    exact ⟨[], rfl, .nil⟩
  | t :: ts, hts, ls, hls => by
    rw [List.forall_mem_cons] at hts
    rw [segmentsAll] at hls
    obtain ⟨first, others, rfl, hfirst, hothers⟩ := List.map_eq_append_iff.1 hls
    obtain ⟨t', ht', hmakes⟩ := exists_makes hts.1 hfirst
    obtain ⟨ts', hts', hmakesAll⟩ := exists_makesAll hts.2 hothers
    exact ⟨t' :: ts', by rw [unplacedAll, unplacedAll, ht', hts'], hmakes.append hmakesAll⟩

end

/-! ### Assembling -/

theorem assemble_single {l : Lexeme} {c : Content} (h : l.segment = .single c)
    (rest : List Lexeme) : assemble error frames nodes (l :: rest)
      = assemble error frames (.node c (some l.position) [] :: nodes) rest := by
  rw [assemble.eq_def]
  simp only [h]

theorem assemble_opening {l : Lexeme} {c : Content} (h : l.segment = .opening c)
    (rest : List Lexeme) : assemble error frames nodes (l :: rest)
      = assemble error (⟨c, l.position, nodes⟩ :: frames) [] rest := by
  rw [assemble.eq_def]
  simp only [h]

theorem assemble_closing {l : Lexeme} {f : Frame} (h : l.segment = .closing)
    (rest : List Lexeme) : assemble error (f :: frames) nodes (l :: rest)
      = assemble error frames (f.close nodes) rest := by
  rw [assemble.eq_def]
  simp only [h]

theorem assemble_stray {l : Lexeme} (h : l.segment = .closing) (rest : List Lexeme) :
    assemble error [] nodes (l :: rest) = .error ⟨.unexpectedClose, l.position⟩ := by
  rw [assemble.eq_def]
  simp only [h]

/-- **Lexemes that make up trees** leave no trace but these trees for the lexemes after them. -/
theorem Makes.assemble (h : Makes ls ts) (error : Option ParseError) (frames : List Frame)
    (nodes : List Tree) (rest : List Lexeme) :
    Tree.assemble error frames nodes (ls ++ rest)
      = Tree.assemble error frames (ts.reverse ++ nodes) rest := by
  induction h generalizing frames nodes rest with
  | nil => rfl
  | single hl _ ih =>
    rw [List.cons_append, assemble_single hl, ih, List.reverse_cons, List.append_assoc,
      List.singleton_append]
  | block hl _ hk _ ihi ih =>
    rw [List.cons_append, List.append_assoc, List.cons_append, assemble_opening hl, ihi,
      assemble_closing hk, ih, Frame.close, List.append_nil, List.reverse_reverse,
      List.reverse_cons, List.append_assoc, List.singleton_append]

/-- **The blocks that lexemes leave open**, innermost first, and the nodes so far in the innermost
one, the latest first: what follows a header makes up the nodes of its block. -/
inductive Leaves : List Lexeme → List Frame → List Tree → Prop where
  | top {ls : List Lexeme} {nodes : List Tree} : Makes ls nodes.reverse → Leaves ls [] nodes
  | inside {ls inner : List Lexeme} {l : Lexeme} {c : Content} {outer : List Frame}
    {before nodes : List Tree} :
    Leaves ls outer before → l.segment = .opening c → Makes inner nodes.reverse →
    Leaves (ls ++ l :: inner) (⟨c, l.position, before⟩ :: outer) nodes

/-- A header opens a block with no nodes yet. -/
theorem Leaves.header {l : Lexeme} {c : Content} (h : Leaves ls frames nodes)
    (hl : l.segment = .opening c) : Leaves (ls ++ [l]) (⟨c, l.position, nodes⟩ :: frames) [] :=
  .inside h hl .nil

/-- More nodes go into the innermost block. -/
theorem Leaves.append (h : Leaves ls frames nodes) (hk : Makes ks us) :
    Leaves (ls ++ ks) frames (us.reverse ++ nodes) := by
  cases h with
  | top hm =>
    refine .top ?_
    rw [List.reverse_append, List.reverse_reverse]
    exact hm.append hk
  | inside ho hl hm =>
    rw [List.append_assoc, List.cons_append]
    refine .inside ho hl ?_
    rw [List.reverse_append, List.reverse_reverse]
    exact hm.append hk

/-- **What assembling reports**: the lexemes make up the trees; or the first thing wrong is the
error after the lexemes, a closing brace, or the innermost block at the end. -/
theorem assemble_spec (error : Option ParseError) (ls : List Lexeme) :
    ∀ {ks : List Lexeme} {frames : List Frame} {nodes : List Tree},
    Leaves ks frames nodes → match assemble error frames nodes ls with
      | .ok ts => error = none ∧ Makes (ks ++ ls) ts
      | .error e => error = some e ∨
        (error = none ∧ e.fault = .unclosedBlock ∧ ∃ before l inner c us,
          ks ++ ls = before ++ l :: inner ∧ l.segment = .opening c ∧ l.position = e.position ∧
            Makes inner us) ∨
        (e.fault = .unexpectedClose ∧ ∃ before l after, ks ++ ls = before ++ l :: after ∧
          l.segment = .closing ∧ l.position = e.position) := by
  induction ls with
  | nil =>
    intro ks frames nodes h
    rw [List.append_nil]
    cases error with
    | some e => exact .inl rfl
    | none =>
      cases h with
      | top hm => exact ⟨rfl, hm⟩
      | inside _ hl hm => exact .inr (.inl ⟨rfl, rfl, _, _, _, _, _, rfl, hl, rfl, hm⟩)
  | cons l ls ih =>
    intro ks frames nodes h
    cases hl : l.segment with
    | single c =>
      have hnext := ih (h.append (.single hl .nil))
      rw [List.append_assoc, List.singleton_append] at hnext
      rw [assemble_single hl]
      exact hnext
    | opening c =>
      have hnext := ih (h.header hl)
      rw [List.append_assoc, List.singleton_append] at hnext
      rw [assemble_opening hl]
      exact hnext
    | closing =>
      cases h with
      | top hm =>
        rw [assemble_stray hl]
        exact .inr (.inr ⟨rfl, ks, l, ls, rfl, hl, rfl⟩)
      | inside ho hk hm =>
        have hnext := ih (ho.append (.block hk hm hl .nil))
        rw [assemble_closing hl]
        simpa [Frame.close] using hnext

/-! ### Reading -/

/-- Every segment of a text is shaped as a property of what is read says. -/
theorem shaped_of_scanFrom (hread : ∀ {s : Segment} {taken : Text}, s.Spelled taken →
      (∀ c ∈ taken.head?, Lexeme.isGap c = false) → s.Shaped P) (t : Text) :
    ∀ (skip : Nat) (p : Position), ∀ l ∈ (Lexeme.scanFrom skip p t).1, l.segment.Shaped P := by
  induction t with
  | nil => exact fun _ _ _ h => absurd h List.not_mem_nil
  | cons c rest ih =>
    intro skip p l hl
    cases skip with
    | succ skip =>
      rw [Lexeme.scanFrom] at hl
      exact ih _ _ l hl
    | zero =>
      rw [Lexeme.scanFrom] at hl
      split at hl
      · exact ih _ _ l hl
      · next hgap =>
        split at hl
        · cases hl
        · next hr =>
          rcases List.mem_cons.1 hl with rfl | hl
          · exact hread (Segment.spelled_of_read hr).1
              (Segment.forall_head_of_read (Bool.eq_false_iff.2 hgap) hr)
          · exact ih _ _ l hl

theorem withoutMarks_of_head (h : css.head? ≠ some '\uFEFF') : withoutMarks css = css := by
  cases css with
  | nil => rfl
  | cons c css =>
    refine List.dropWhile_cons_of_neg ?_
    simpa using h

theorem withoutMarks_append (t u : Text) :
    withoutMarks (t ++ ';' :: u) = withoutMarks t ++ ';' :: u := by
  unfold withoutMarks
  rw [List.dropWhile_append]
  split
  · next h =>
    rw [List.isEmpty_iff.1 h]
    rfl
  · rfl

/-- **Reading a sheet** is to assemble the lexemes of its text. -/
theorem parse_eq (css : Text) : parse css =
    (assemble (Lexeme.scan (withoutMarks css)).2 [] [] (Lexeme.scan (withoutMarks css)).1).map
      (.node .root none) := rfl

/-- **A text is read as the trees that its lexemes make up**, below a root, if there is no error
after the lexemes. -/
theorem parse_eq_ok_iff : parse css = .ok t ↔ ∃ ts ls, t = .node .root none ts ∧
    Lexeme.scan (withoutMarks css) = (ls, none) ∧ Makes ls ts := by
  have hspec := assemble_spec (Lexeme.scan (withoutMarks css)).2
    (Lexeme.scan (withoutMarks css)).1 (.top .nil : Leaves [] [] [])
  rw [parse_eq]
  constructor
  · intro h
    cases hts : assemble (Lexeme.scan (withoutMarks css)).2 [] []
        (Lexeme.scan (withoutMarks css)).1 with
    | error e =>
      rw [hts] at h
      cases h
    | ok ts =>
      rw [hts] at h hspec
      exact ⟨ts, _, (Except.ok.inj h).symm, Prod.ext rfl hspec.1, hspec.2⟩
  · rintro ⟨ts, ls, rfl, hscan, hmakes⟩
    have hassemble := hmakes.assemble none [] [] []
    rw [List.append_nil, List.append_nil, assemble, List.reverse_reverse] at hassemble
    rw [hscan]
    exact congrArg (Except.map (node .root none)) hassemble

/-- **A sheet that was read has the segments of its text.** -/
theorem row_of_parse (h : parse css = .ok t) :
    ∃ ts, t = .node .root none ts ∧ Row (withoutMarks css) (segmentsAll ts) := by
  obtain ⟨ts, ls, rfl, hscan, hmakes⟩ := parse_eq_ok_iff.1 h
  have hshaped := shaped_of_scanFrom (fun hs _ => hs.shaped) (withoutMarks css) 0 .start
  rw [show Lexeme.scanFrom 0 .start (withoutMarks css) = (ls, none) from hscan] at hshaped
  exact ⟨ts, rfl, hmakes.segmentsAll hshaped ▸ Lexeme.row_of_scan hscan⟩

/-- **A sheet that was read is shaped** as a property of what is read says. -/
theorem shaped_of_parse (hread : ∀ {s : Segment} {taken : Text}, s.Spelled taken →
      (∀ c ∈ taken.head?, Lexeme.isGap c = false) → s.Shaped P)
    (h : parse css = .ok t) : ∀ c ∈ t.children, c.Shaped P := by
  obtain ⟨ts, ls, rfl, hscan, hmakes⟩ := parse_eq_ok_iff.1 h
  have hshaped := shaped_of_scanFrom hread (withoutMarks css) 0 .start
  rw [show Lexeme.scanFrom 0 .start (withoutMarks css) = (ls, none) from hscan] at hshaped
  exact hmakes.shaped hshaped

/-- **A row of the segments of a tree is read as that tree**, up to positions. -/
theorem parse_of_row (hts : ∀ c ∈ ts, c.Shaped P) (h : Row (withoutMarks css) (segmentsAll ts)) :
    ∃ ts', parse css = .ok (.node .root none ts') ∧ unplacedAll ts' = unplacedAll ts := by
  obtain ⟨ls, hls, hss⟩ := Lexeme.scanFrom_of_row h .start
  obtain ⟨ts', hts', hmakes⟩ := exists_makesAll hts hss
  exact ⟨ts', parse_eq_ok_iff.2 ⟨ts', ls, rfl, hls, hmakes⟩, hts'⟩

end Tree
end MediaGrouping
