/-
# What positions point at

Every segment of a sheet is read at an offset, and its lexeme has the position of that offset
(`Lexeme.placed`). What is read there begins the text: an at-rule with `@` and its name, a rule with
its selector, a declaration with its property, a comment with all that it is
(`Segment.Spelled.lead_isPrefix`). Lexemes make up trees in their order (`Tree.Makes.nodesAll`), so
that the nodes of a sheet stand at growing offsets. What cannot be read is a comment that is not
closed, or a word without a colon (`Segment.shownAt_of_read`), and of the blocks that are not closed
the one reported is the last one opened (`Tree.assemble_spec`). So positions denote what they are
reported for (`Tree.positions_of_parse`), and no two characters are denoted by one position
(`Position.Denotes.unique`).
-/

import MediaGrouping.Proofs.Sheet.Normal
import MediaGrouping.Proofs.Sheet.Positions

namespace MediaGrouping

/-- What the text of a node begins with; a comment is written as it was read. -/
def Content.lead : Content → Text
  | .root => []
  | .atRule r => '@' :: r.name
  | .rule selector => selector
  | .declaration d => d.property
  | .comment c => c.print

namespace Segment

variable {s : Segment} {ss : List Segment} {t taken : Text} {c : Char} {fault : Fault}

/-- What the text of a segment begins with. -/
def lead : Segment → Text
  | .opening header => header.lead
  | .closing => ['}']
  | .single content => content.lead

/-- **A segment is read where its text begins.** -/
theorem Spelled.lead_isPrefix (h : s.Spelled taken)
    (hgap : ∀ c ∈ taken.head?, Lexeme.isGap c = false) : s.lead <+: taken := by
  have hcut : ∀ {u : Text}, u <+: taken → Text.trim u <+: taken := fun hu =>
    (Text.trim_isPrefix <| Text.forall_head_of_isPrefix hu fun c hc =>
      (Bool.or_eq_false_iff.1 (hgap c hc)).1).trans hu
  cases h with
  | closing => exact List.prefix_refl _
  | @block name params => exact (List.prefix_append _ params).trans (List.prefix_append _ _)
  | statement => exact List.prefix_append _ _
  | rule => exact hcut (List.prefix_append _ _)
  | declaration => exact hcut (List.prefix_append _ _)
  | comment =>
    rw [lead, Content.lead, Comment.print_eq, Comment.raw_ofRaw]
    exact List.prefix_refl _

/-! ### What cannot be read -/

/-- A comment that is not closed has no end mark after it. -/
theorem not_infix_of_commentBody?_eq_none (h : commentBody? t = none) : ¬ ['*', '/'] <:+: t := by
  induction t with
  | nil => simp
  | cons c t ih =>
    rw [commentBody?.eq_def] at h
    split at h
    · next he => cases he
    · cases h
    · next d rest hno he =>
      obtain ⟨rfl, rfl⟩ := List.cons.inj he
      rw [List.infix_cons_iff, not_or]
      refine ⟨?_, ih (Option.map_eq_none_iff.1 h)⟩
      rintro ⟨u, hu⟩
      obtain ⟨rfl, hrest⟩ := List.cons.inj hu
      exact hno u rfl hrest.symm

/-- Only a text without a colon is not a declaration. -/
theorem not_mem_of_declaration?_eq_none (h : declaration? t = none) : ':' ∉ t := by
  intro hm
  obtain ⟨p, rest, rfl, hp⟩ := List.eq_append_cons_of_mem hm
  rw [declaration?_append hp] at h
  cases h

/-- A scan passes over a character that neither opens nor closes a block and is no gap. -/
theorem exists_span_cons (hc : Lexeme.isGap c = false) (hopen : c ≠ '{') (hclose : c ≠ '}')
    (t : Text) : ∃ text, (Text.Scan.span stops .start (c :: t)).1 = c :: text := by
  have hstop : ¬ Text.Scan.start.stopsAt stops c = true := by
    intro h
    obtain ⟨-, -, hm⟩ := Text.Scan.stopsAt_iff.1 h
    simp only [stops, List.mem_cons, List.not_mem_nil, or_false] at hm
    rcases hm with rfl | rfl | rfl
    · cases hc
    · exact hopen rfl
    · exact hclose rfl
  rw [Text.Scan.span, if_neg hstop]
  exact ⟨_, rfl⟩

/-- **A word that cannot be read** has no colon. -/
theorem exists_word_of_readPlain (hc : Lexeme.isGap c = false) (hclose : c ≠ '}')
    (h : readPlain (c :: t) = .error fault) :
    ∃ word, fault = .unknownWord word ∧ word ≠ [] ∧ ':' ∉ word ∧ word <+: c :: t := by
  obtain ⟨hblank, -⟩ := Bool.or_eq_false_iff.1 hc
  have hspan := Text.Scan.span_isPrefix stops .start (c :: t)
  rw [readPlain, prelude_eq_span] at h
  split at h
  next text left he =>
    rw [he] at hspan
    split at h
    · cases h
    · next hbrace =>
      split at h
      · cases h
      · next hd =>
        cases h
        have hopen : c ≠ '{' := by
          rintro rfl
          exact hbrace t (congrArg Prod.snd he).symm
        obtain ⟨rest, htext⟩ := exists_span_cons hc hopen hclose t
        obtain rfl : text = c :: rest := (congrArg Prod.fst he).symm.trans htext
        have hcut : Text.trim (c :: rest) <+: c :: rest :=
          Text.trim_isPrefix fun d hd => Option.some.inj hd ▸ hblank
        exact ⟨_, rfl, Text.trim_ne_nil hblank rest,
          fun hm => not_mem_of_declaration?_eq_none hd (Text.mem_of_mem_trim hm),
          hcut.trans hspan⟩

/-! ### Blocks -/

/-- **Segments that open and close blocks in pairs.** -/
inductive Balanced : List Segment → Prop where
  | nil : Balanced []
  | single {content : Content} {ss : List Segment} : Balanced ss → Balanced (.single content :: ss)
  | block {header : Content} {inner ss : List Segment} :
    Balanced inner → Balanced ss → Balanced (.opening header :: (inner ++ .closing :: ss))

end Segment

/-- **What a fault says of the place it is reported for**: there is a closing brace, a comment with
no end mark after it, the word, or the header of a block after which blocks are opened and closed in
pairs, up to the end of the text. -/
def Fault.ShownAt (t : Text) (k : Nat) : Fault → Prop
  | .unexpectedClose => ['}'] <+: t.drop k
  | .unclosedComment => ∃ rest, t.drop k = '/' :: '*' :: rest ∧ ¬ ['*', '/'] <:+: rest
  | .unknownWord word => word ≠ [] ∧ ':' ∉ word ∧ word <+: t.drop k
  | .unclosedBlock => ∃ before header after,
    Lexeme.Passage t 0 (before ++ (k, .opening header) :: after) t.length ∧
      Segment.Balanced (after.map Prod.snd)

namespace Segment

/-- **What cannot be read shows the fault** that is reported for it. -/
theorem shownAt_of_read {t rest : Text} {k : Nat} {c : Char} {fault : Fault}
    (hd : t.drop k = c :: rest) (hc : Lexeme.isGap c = false)
    (h : Segment.read (c :: rest) = .error fault) : fault.ShownAt t k := by
  unfold Segment.read at h
  split at h
  · cases h
  · cases h
  · next rest' he =>
    split at h
    · cases h
    · next hnone =>
      cases h
      exact ⟨rest', hd.trans he, not_infix_of_commentBody?_eq_none hnone⟩
  · next hclose _ _ =>
    obtain ⟨word, rfl, hne, hcolon, hw⟩ :=
      exists_word_of_readPlain hc (fun he => hclose rest (by rw [he])) h
    exact ⟨hne, hcolon, hd ▸ hw⟩

end Segment

namespace Lexeme

variable {t : Text} {k j : Nat} {ms : List (Nat × Segment)}

/-- **The segments of a passage are read at growing offsets**, where their texts begin. -/
theorem Passage.offsets (h : Passage t k ms j) :
    (∀ m ∈ ms, k ≤ m.1 ∧ m.1 < t.length ∧ m.2.lead <+: t.drop m.1) ∧
      (ms.map Prod.fst).Pairwise (· < ·) := by
  induction h with
  | done => simp
  | gap _ _ _ ih =>
    obtain ⟨hall, hp⟩ := ih
    exact ⟨fun m hm => ⟨by have := (hall m hm).1; omega, (hall m hm).2⟩, hp⟩
  | @read k j c rest taken s ms hd hc hr _ ih =>
    obtain ⟨hall, hp⟩ := ih
    have hpos := List.length_pos_iff.2 (Segment.read_taken hr).1
    have hlen : t.length - k = rest.length + 1 := by rw [← List.length_drop, hd]; rfl
    constructor
    · rintro m hm
      rcases List.mem_cons.1 hm with rfl | hm
      · have hlead := (Segment.spelled_of_read hr).1.lead_isPrefix
          (Segment.forall_head_of_read hc hr)
        exact ⟨Nat.le_refl _, by omega, hd ▸ hlead.trans (Segment.spelled_of_read hr).2⟩
      · exact ⟨by have := (hall m hm).1; omega, (hall m hm).2⟩
    · rw [List.map_cons, List.pairwise_cons]
      refine ⟨fun i hi => ?_, hp⟩
      obtain ⟨m, hm, rfl⟩ := List.mem_map.1 hi
      have := (hall m hm).1
      omega

theorem denotes_placed {m : Nat × Segment} (hm : m.1 < t.length) :
    Position.Denotes t (placed t m).position m.1 :=
  Position.denotes_iff.2 ⟨hm, rfl⟩

end Lexeme

namespace Tree

open Lexeme (Passage placed)

mutual

/-- The nodes of a tree in pre-order: what each is, and its position. -/
def nodes : Tree → List (Content × Option Position)
  | .node c p children => (c, p) :: nodesAll children

/-- The nodes of several trees, one after the other. -/
def nodesAll : List Tree → List (Content × Option Position)
  | [] => []
  | t :: ts => t.nodes ++ nodesAll ts

end

/-- The node that a lexeme begins, with its position. -/
def node? (l : Lexeme) : Option (Content × Option Position) :=
  match l.segment with
  | .opening c | .single c => some (c, some l.position)
  | .closing => none

variable {ts : List Tree} {ls : List Lexeme}

theorem Makes.balanced (h : Makes ls ts) : Segment.Balanced (ls.map Lexeme.segment) := by
  induction h with
  | nil => exact .nil
  | single hl _ ih =>
    rw [List.map_cons, hl]
    exact .single ih
  | block hl _ hk _ ihi ih =>
    rw [List.map_cons, List.map_append, List.map_cons, hl, hk]
    exact .block ihi ih

/-- **The nodes of trees are begun by their lexemes**, in the same order. -/
theorem Makes.nodesAll (h : Makes ls ts) : Tree.nodesAll ts = ls.filterMap node? := by
  induction h with
  | nil => rfl
  | single hl _ ih =>
    rw [Tree.nodesAll, ih, Tree.nodes, Tree.nodesAll]
    simp [node?, hl]
  | block hl _ hk _ ihi ih =>
    rw [Tree.nodesAll, ih, Tree.nodes, ihi]
    simp [node?, hl, hk]

variable {ms : List (Nat × Segment)} {before after : List Lexeme} {l : Lexeme} {e : ParseError}
  {text : Text} {j : Nat}

/-- The nodes that segments begin stand where the segments are read. -/
theorem forall₂_nodes (h : ∀ m ∈ ms, m.1 < text.length ∧ m.2.lead <+: text.drop m.1) :
    List.Forall₂ (fun n k => ∃ p, n.2 = some p ∧ Position.Denotes text p k ∧
        n.1.lead <+: text.drop k)
      ((ms.map (placed text)).filterMap node?)
      ((ms.filter (fun m => (node? (placed text m)).isSome)).map Prod.fst) := by
  induction ms with
  | nil => exact .nil
  | cons m ms ih =>
    rw [List.forall_mem_cons] at h
    obtain ⟨k, s⟩ := m
    have hd : Position.Denotes text (placed text (k, s)).position k := Lexeme.denotes_placed h.1.1
    cases s with
    | closing => exact ih h.2
    | opening c => exact .cons ⟨_, rfl, hd, h.1.2⟩ (ih h.2)
    | single c => exact .cons ⟨_, rfl, hd, h.1.2⟩ (ih h.2)

/-- A lexeme of a text stands for a segment at an offset. -/
theorem exists_placed (h : ms.map (placed text) = before ++ l :: after) :
    ∃ ms₁ m ms₂, ms = ms₁ ++ m :: ms₂ ∧ placed text m = l ∧ ms₂.map (placed text) = after := by
  obtain ⟨ms₁, others, rfl, -, h⟩ := List.map_eq_append_iff.1 h
  obtain ⟨m, ms₂, rfl, hl, h⟩ := List.map_eq_cons_iff.1 h
  exact ⟨ms₁, m, ms₂, rfl, hl, h⟩

/-- What ends the lexemes is shown where it stands. -/
theorem shownAt_of_halts (h : Lexeme.Halts text j (some e)) :
    ∃ k, Position.Denotes text e.position k ∧ e.fault.ShownAt text k := by
  obtain ⟨hpos, c, rest, hd, hc, hr⟩ := h
  have hj : j < text.length := by
    by_contra hno
    rw [List.drop_eq_nil_of_le (Nat.not_lt.1 hno)] at hd
    cases hd
  exact ⟨j, Position.denotes_iff.2 ⟨hj, hpos⟩, Segment.shownAt_of_read hd hc hr⟩

/-- A header is an open block if what follows it makes up nodes, up to the end of the text. -/
theorem shownAt_of_opening {c : Content} (hp : Passage text 0 ms text.length)
    (hms : ms.map (placed text) = before ++ l :: after) (hl : l.segment = .opening c)
    (hm : Makes after ts) :
    ∃ k, Position.Denotes text l.position k ∧ Fault.unclosedBlock.ShownAt text k := by
  obtain ⟨ms₁, m, ms₂, rfl, rfl, rfl⟩ := exists_placed hms
  obtain ⟨k, s⟩ := m
  obtain rfl : s = .opening c := hl
  have hk := (hp.offsets.1 (k, .opening c) (by simp)).2.1
  have hpairs := hm.balanced
  rw [List.map_map] at hpairs
  exact ⟨k, Lexeme.denotes_placed hk, ms₁, c, ms₂, hp, hpairs⟩

/-- A brace that closes a block is shown where it stands. -/
theorem shownAt_of_closing (hp : Passage text 0 ms j)
    (hms : ms.map (placed text) = before ++ l :: after) (hl : l.segment = .closing) :
    ∃ k, Position.Denotes text l.position k ∧ Fault.unexpectedClose.ShownAt text k := by
  obtain ⟨ms₁, m, ms₂, rfl, rfl, rfl⟩ := exists_placed hms
  obtain ⟨k, s⟩ := m
  obtain rfl : s = .closing := hl
  obtain ⟨-, hk, hlead⟩ := hp.offsets.1 (k, .closing) (by simp)
  exact ⟨k, Lexeme.denotes_placed hk, hlead⟩

/-- **Every position points at the right character**, marks before the sheet aside. If the sheet can
be read, its nodes in pre-order have positions at growing offsets, and the text there begins with
what they are; the position of an error is where the text shows the fault. -/
theorem positions_of_parse (css : Text) :
    let t := withoutMarks css
    match parse css with
    | .ok tree => ∃ nodes offsets, tree.nodes = (.root, none) :: nodes ∧
      offsets.Pairwise (· < ·) ∧
      List.Forall₂ (fun n k => ∃ p, n.2 = some p ∧ Position.Denotes t p k ∧ n.1.lead <+: t.drop k)
        nodes offsets
    | .error e => ∃ k, Position.Denotes t e.position k ∧ e.fault.ShownAt t k := by
  intro t
  obtain ⟨ms, j, hp, hls, hh⟩ := Lexeme.passage_scan t
  obtain ⟨hms, hpairs⟩ := hp.offsets
  have hspec := assemble_spec (Lexeme.scan t).2 (Lexeme.scan t).1 (.top .nil : Leaves [] [] [])
  rw [parse_eq]
  cases ha : assemble (Lexeme.scan t).2 [] [] (Lexeme.scan t).1 with
  | ok ts =>
    rw [ha] at hspec
    obtain ⟨-, hm⟩ := hspec
    rw [List.nil_append, hls] at hm
    refine ⟨_, _, by rw [Tree.nodes, hm.nodesAll], ?_, forall₂_nodes fun m hm => (hms m hm).2⟩
    exact hpairs.sublist (List.filter_sublist.map Prod.fst)
  | error e =>
    rw [ha, List.nil_append, hls] at hspec
    rcases hspec with he | ⟨hnone, hfault, before, l, inner, c, us, hsplit, hl, hpos, hm⟩ |
      ⟨hfault, before, l, after, hsplit, hl, hpos⟩
    · rw [he] at hh
      exact shownAt_of_halts hh
    · rw [hnone] at hh
      obtain rfl : j = t.length := hh
      show ∃ k, Position.Denotes t e.position k ∧ e.fault.ShownAt t k
      rw [hfault, ← hpos]
      exact shownAt_of_opening hp hsplit hl hm
    · show ∃ k, Position.Denotes t e.position k ∧ e.fault.ShownAt t k
      rw [hfault, ← hpos]
      exact shownAt_of_closing hp hsplit hl

/-- Of the blocks that are not closed, the last one opened is reported. -/
example : parse "a\x7bb\x7b\x7dc\x7b".toList = .error ⟨.unclosedBlock, ⟨1, 6⟩⟩ := rfl

end Tree
end MediaGrouping
