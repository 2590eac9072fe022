/-
# Reading what was written

A normal node that opens a block is read back from its text and the brace after it
(`Segment.row_opening`). One without a block is read back if a scan over its text is
at the start behind it (`Content.Settled`); otherwise the semicolon written there does
not end it, and the node that is read has taken up more (`Segment.row_single`).
-/

import MediaGrouping.Proofs.Sheet.Ink
import MediaGrouping.Proofs.Sheet.Normal

namespace MediaGrouping

open Text (Trimmed)
open Text.Scan (Closed Passes start)

/-- **A settled node**: unless a brace ends its text, a scan over it is at the start
behind it. -/
def Content.Settled (c : Content) : Prop := c.isBlock = false → start.run c.prelude = start

/-- What follows the name in the header of an at-rule. -/
def AtRule.tail (r : AtRule) : Text := if r.params.isEmpty then [] else ' ' :: r.params

namespace AtRule

variable (r : AtRule)

theorem header_eq : r.header = '@' :: (r.name ++ r.tail) := by
  rw [header, tail]
  split_ifs
  · rw [List.append_nil]
  · rfl

theorem trim_tail : Text.trim r.tail = Text.trim r.params := by
  rw [tail]
  split_ifs with h
  · rw [List.isEmpty_iff.1 h]
  · exact Text.trim_cons rfl r.params

theorem run_tail : start.run r.tail = start.run r.params := by
  rw [tail]
  split_ifs with h
  · rw [List.isEmpty_iff.1 h]
  · rfl

theorem passes_tail (h : Passes Segment.stops start r.params) :
    Passes Segment.stops start r.tail := by
  rw [tail]
  split_ifs
  · exact Text.Scan.passes_nil
  · exact Text.Scan.passes_cons.2 ⟨rfl, h⟩

/-- The name ends where the rest of the header, or what follows it, begins. -/
theorem tail_append_head (c : Char) (hc : Segment.isNameChar c = false) (t : Text) :
    ∀ d ∈ (r.tail ++ c :: t).head?, Segment.isNameChar d = false := by
  rw [tail]
  split_ifs
  · rintro d ⟨⟩
    exact hc
  · rintro d ⟨⟩
    decide

end AtRule

namespace Segment

variable {s : Segment} {ss : List Segment} {name rest t taken u : Text} {c : Char} {r : AtRule}
  {d : Declaration} {content : Content}

/-- A character that is neither blank nor a stop begins a segment. -/
theorem not_gap (hb : Text.isBlank c = false) (hc : c ∉ stops) : Lexeme.isGap c = false := by
  have hne : c ≠ ';' := fun he => hc (he ▸ List.mem_cons_self)
  simp [Lexeme.isGap, hb, hne]

theorem ne_close (hc : c ∉ stops) : c ≠ '}' := fun he => hc (he ▸ by decide)

/-! ### Rows -/

theorem row_gap (hc : Lexeme.isGap c = true) : Row (c :: t) ss ↔ Row t ss := by
  refine ⟨fun h => ?_, .gap hc⟩
  cases h with
  | gap _ h => exact h
  | read hc' _ _ _ =>
    rw [hc] at hc'
    cases hc'

theorem row_gaps (hu : ∀ c ∈ u, Lexeme.isGap c = true) : Row (u ++ t) ss ↔ Row t ss := by
  induction u with
  | nil => rfl
  | cons c u ih =>
    rw [List.forall_mem_cons] at hu
    rw [List.cons_append, row_gap hu.1, ih hu.2]

/-- **A segment that a text begins with** is the first of its row. -/
theorem row_read (hc : Lexeme.isGap c = false) (hr : Segment.read (c :: t) = .ok (s, taken))
    (ht : c :: t = taken ++ rest) : Row (c :: t) (s :: ss) ↔ Row rest ss := by
  refine ⟨fun h => ?_, .read hc hr ht⟩
  cases h with
  | gap hc' _ =>
    rw [hc] at hc'
    cases hc'
  | read _ hr' ht' h =>
    obtain ⟨-, rfl⟩ := Prod.mk.inj (Except.ok.inj (hr.symm.trans hr'))
    rwa [List.append_cancel_left (ht.symm.trans ht')]

theorem exists_read (hc : Lexeme.isGap c = false) (h : Row (c :: t) (s :: ss)) :
    ∃ taken, Segment.read (c :: t) = .ok (s, taken) := by
  cases h with
  | gap hc' _ =>
    rw [hc] at hc'
    cases hc'
  | read _ hr _ _ => exact ⟨_, hr⟩

theorem row_closing : Row ('}' :: t) (.closing :: ss) ↔ Row t ss := row_read rfl rfl rfl

/-! ### At-rules -/

theorem takeWhile_name (hn : ∀ c ∈ name, isNameChar c = true)
    (ht : ∀ c ∈ t.head?, isNameChar c = false) :
    (name ++ t).takeWhile isNameChar = name ∧ (name ++ t).dropWhile isNameChar = t := by
  rw [List.takeWhile_append_of_pos hn, List.dropWhile_append_of_pos hn]
  cases t with
  | nil => exact ⟨List.append_nil _, rfl⟩
  | cons c t =>
    have hc : ¬ isNameChar c = true := by simp [ht c rfl]
    rw [List.takeWhile_cons_of_neg hc, List.dropWhile_cons_of_neg hc]
    exact ⟨List.append_nil _, rfl⟩

theorem read_atRule_opening (hr : r.Regular) (hb : r.hasBlock = true)
    (hclosed : Closed stops (r.tail ++ [' '])) (rest : Text) :
    Segment.read (r.header ++ ' ' :: '{' :: rest)
      = .ok (.opening (.atRule r), r.header ++ [' ', '{']) := by
  obtain ⟨htake, hdrop⟩ := takeWhile_name hr.name (r.tail_append_head ' ' rfl ('{' :: rest))
  have hspan := hclosed.span (c := '{') rfl (by decide) rest
  have htrim : Text.trim (r.tail ++ [' ']) = r.params := by
    rw [Text.trim_concat rfl, r.trim_tail]
    exact hr.params
  rw [List.append_assoc] at hspan
  rw [r.header_eq, List.cons_append, List.append_assoc]
  show Except.ok (readAtRule _) = _
  rw [readAtRule, prelude_eq_span]
  simp only [htake, hdrop]
  rw [show r.tail ++ ' ' :: '{' :: rest = r.tail ++ ([' '] ++ '{' :: rest) from rfl, hspan]
  dsimp only
  rw [htrim, ← hb]
  simp

theorem read_statement (hr : r.Regular) (hb : r.hasBlock = false)
    (hclosed : Closed stops r.tail) (rest : Text) :
    Segment.read (r.header ++ ';' :: rest) = .ok (.single (.atRule r), r.header) := by
  obtain ⟨htake, hdrop⟩ := takeWhile_name hr.name (r.tail_append_head ';' rfl rest)
  have hspan := hclosed.span (c := ';') rfl (by decide) rest
  have htrim : Text.trim r.tail = r.params := r.trim_tail.trans hr.params
  rw [r.header_eq, List.cons_append, List.append_assoc]
  show Except.ok (readAtRule _) = _
  rw [readAtRule, prelude_eq_span]
  simp only [htake, hdrop, hspan, htrim, ← hb]
  rfl

/-- What a scan over the parameters passes over is taken up. -/
theorem readAtRule_span (hn : ∀ c ∈ name, isNameChar c = true)
    (ht : ∀ c ∈ t.head?, isNameChar c = false) :
    '@' :: (name ++ (Text.Scan.span stops start t).1) <+: (readAtRule (name ++ t)).2 := by
  obtain ⟨htake, hdrop⟩ := takeWhile_name hn ht
  rw [readAtRule, prelude_eq_span]
  simp only [htake, hdrop]
  split
  · exact List.prefix_append _ _
  · exact List.prefix_refl _

/-! ### Rules and declarations -/

theorem read_rule (hs : Trimmed t) (hplain : Plain t) (hclosed : Closed stops (t ++ [' ']))
    (hne : t ≠ []) (rest : Text) :
    Segment.read (t ++ ' ' :: '{' :: rest) = .ok (.opening (.rule t), t ++ [' ', '{']) := by
  have hspan := hclosed.span (c := '{') rfl (by decide) rest
  have htrim : Text.trim (t ++ [' ']) = t := (Text.trim_concat rfl t).trans hs
  have hhead : (t ++ ' ' :: '{' :: rest).head? ≠ some '}' := by
    obtain ⟨c, u, rfl⟩ := List.exists_cons_of_ne_nil hne
    exact fun he => ne_close (not_stop_of_passes hclosed.passes) (Option.some.inj he)
  rw [read_of_plain (hplain.append (by decide) _) hhead, readPlain, prelude_eq_span]
  rw [List.append_assoc] at hspan
  rw [show t ++ ' ' :: '{' :: rest = t ++ ([' '] ++ '{' :: rest) from rfl, hspan]
  dsimp only
  rw [htrim, List.append_assoc]
  rfl

/-- A brace opens a block also without a selector. -/
theorem read_brace (rest : Text) :
    Segment.read ('{' :: rest) = .ok (.opening (.rule []), ['{']) := by
  show readPlain ('{' :: rest) = _
  rw [readPlain, prelude_eq_span]
  rfl

/-- **A value and the mark written after it are told apart again.** -/
theorem splitImportant_text (hv : Trimmed d.value)
    (hi : "!important".toList <:+ d.value → d.important = true) :
    splitImportant (Text.trim (' ' :: (d.value ++
      if d.important then " !important".toList else []))) = (d.value, d.important) := by
  rw [Text.trim_cons rfl]
  cases h : d.important with
  | false =>
    have hnone : Text.dropTail? "!important".toList d.value = none := by
      refine Option.eq_none_iff_forall_ne_some.2 fun plain hp => ?_
      rw [hi ⟨plain, (Text.eq_append_of_dropTail? hp).symm⟩] at h
      cases h
    rw [if_neg Bool.false_ne_true, List.append_nil, show Text.trim d.value = d.value from hv,
      splitImportant, hnone]
  | true =>
    have hmark : Trimmed "!important".toList := by decide
    have hcut : Text.trimEnd (Text.trimStart (d.value ++ [' '])) = d.value :=
      (Text.trim_concat rfl d.value).trans hv
    rw [if_pos rfl, show " !important".toList = [' '] ++ "!important".toList from rfl,
      ← List.append_assoc, Text.trim_append_of_trimmed hmark (by decide), splitImportant,
      Text.dropTail?_append]
    exact congrArg (·, true) hcut

theorem declaration?_text (hd : d.Regular) : declaration? d.text = some d := by
  rw [d.text_eq, declaration?_append hd.colon, splitImportant_text hd.value hd.important,
    show Text.trim d.property = d.property from hd.property]

/-- The first character of a declaration. -/
theorem exists_head_text (hd : d.Regular) (hpasses : Passes stops start d.text) :
    ∃ c t, d.text = c :: t ∧ Lexeme.isGap c = false ∧ c ≠ '}' := by
  rw [d.text_eq] at hpasses ⊢
  cases hp : d.property with
  | nil => exact ⟨':', _, rfl, rfl, by decide⟩
  | cons c t =>
    rw [hp] at hpasses
    have hstop := not_stop_of_passes hpasses
    have hblank : Text.isBlank c = false := (hp ▸ hd.property : Trimmed (c :: t)).head
    exact ⟨c, _, rfl, not_gap hblank hstop, ne_close hstop⟩

/-- A declaration is read as a plain text. -/
theorem read_text (hd : d.Regular) (hpasses : Passes stops start d.text) (rest : Text) :
    Segment.read (d.text ++ ';' :: rest) = readPlain (d.text ++ ';' :: rest) := by
  refine read_of_plain (hd.plain.append (by decide) rest) ?_
  obtain ⟨c, t, ht, -, hc⟩ := exists_head_text hd hpasses
  rw [ht]
  exact fun he => hc (Option.some.inj he)

theorem read_declaration (hd : d.Regular) (hclosed : Closed stops d.text) (rest : Text) :
    Segment.read (d.text ++ ';' :: rest) = .ok (.single (.declaration d), d.text) := by
  rw [read_text hd hclosed.passes, readPlain, prelude_eq_span,
    hclosed.span (c := ';') rfl (by decide) rest]
  simp only [declaration?_text hd]
  rfl

theorem readPlain_span (h : readPlain t = .ok (s, taken)) :
    (Text.Scan.span stops start t).1 <+: taken := by
  rw [readPlain, prelude_eq_span] at h
  split at h
  next text left he =>
    rw [he]
    split at h
    · cases h
      exact List.prefix_append _ _
    · split at h
      · cases h
        exact List.prefix_refl _
      · cases h

/-! ### Comments -/

theorem commentBody?_append (h : ¬ ['*', '/'] <:+: t) (rest : Text) :
    commentBody? (t ++ '*' :: '/' :: rest) = some t := by
  induction t with
  | nil => rfl
  | cons c t ih =>
    rw [List.infix_cons_iff, not_or] at h
    rw [List.cons_append, commentBody?.eq_def]
    split
    · next he => cases he
    · next left he =>
      -- the body would begin with an end of a comment
      obtain ⟨rfl, hslash⟩ := List.cons.inj he
      cases t with
      | nil => cases hslash
      | cons x t =>
        obtain ⟨rfl, -⟩ := List.cons.inj hslash
        exact absurd (List.prefix_append ['*', '/'] t) h.1
    · next he =>
      obtain ⟨rfl, rfl⟩ := List.cons.inj he
      rw [ih h.2]
      rfl

theorem read_comment {c : Comment} (hc : c.Regular) (hraw : ¬ ['*', '/'] <:+: c.raw)
    (rest : Text) : Segment.read (c.print ++ rest) = .ok (.single (.comment c), c.print) := by
  rw [c.print_eq, List.cons_append, List.cons_append, List.append_assoc]
  simp only [List.cons_append, List.nil_append, Segment.read, commentBody?_append hraw,
    Comment.ofRaw_raw hc]

/-! ### Nodes -/

/-- **The header of a block is read back**, whatever follows its brace. -/
theorem row_opening (hc : content.Normal) (hb : content.isBlock = true) :
    Row (content.text ++ ' ' :: '{' :: rest) (.opening content :: ss) ↔ Row rest ss := by
  obtain ⟨hregular, hpasses, hrun⟩ := hc
  have hclosed : Closed stops (content.prelude ++ [' ']) :=
    ⟨Text.Scan.passes_append.2 ⟨hpasses, Text.Scan.passes_of_all rfl⟩, hrun hb⟩
  cases content with
  | root => cases hb
  | declaration d => cases hb
  | comment c => cases hb
  | atRule r =>
    have hblock : r.hasBlock = true := hb
    have htail : Closed stops (r.tail ++ [' ']) := by
      refine ⟨Text.Scan.passes_append.2 ⟨r.passes_tail hpasses, ?_⟩, ?_⟩
      · exact Text.Scan.passes_of_all rfl
      · rw [Text.Scan.run_append, r.run_tail, ← Text.Scan.run_append]
        exact hclosed.run
    have hread := read_atRule_opening hregular hblock htail rest
    show Row (r.header ++ ' ' :: '{' :: rest) _ ↔ _
    rw [r.header_eq] at hread ⊢
    exact row_read rfl hread (by simp)
  | rule selector =>
    obtain ⟨htrimmed, hplain⟩ := hregular
    show Row (selector ++ ' ' :: '{' :: rest) _ ↔ _
    by_cases hne : selector = []
    · subst hne
      rw [List.nil_append, row_gap rfl]
      exact row_read rfl (read_brace rest) rfl
    · have hread := read_rule htrimmed hplain hclosed hne rest
      obtain ⟨c, t, rfl⟩ := List.exists_cons_of_ne_nil hne
      exact row_read (not_gap htrimmed.head (not_stop_of_passes hpasses)) hread (by simp)

theorem exists_head (hc : content.Normal) (hb : content.isBlock = false) :
    ∃ c t, content.text = c :: t ∧ Lexeme.isGap c = false := by
  cases content with
  | root => cases hc.regular
  | rule selector => cases hb
  | atRule r => exact ⟨'@', _, r.header_eq, rfl⟩
  | comment c => exact ⟨'/', _, c.print_eq, rfl⟩
  | declaration d =>
    obtain ⟨c, t, ht, hgap, -⟩ := exists_head_text hc.regular hc.passes
    exact ⟨c, t, ht, hgap⟩

/-- A settled node without a block is read from its text. -/
theorem read_single (hc : content.Normal) (hb : content.isBlock = false) (hs : content.Settled)
    (rest : Text) :
    Segment.read (content.text ++ (content.ending ++ rest))
      = .ok (.single content, content.text) := by
  have hclosed : Closed stops content.prelude := ⟨hc.passes, hs hb⟩
  have hregular := hc.regular
  cases content with
  | root => cases hregular
  | rule selector => cases hb
  | atRule r =>
    refine read_statement hregular hb ⟨r.passes_tail hc.passes, ?_⟩ rest
    rw [r.run_tail]
    exact hclosed.run
  | declaration d => exact read_declaration hregular hclosed rest
  | comment c => exact read_comment hregular.1 hregular.2 rest

/-- A text with a semicolon after it has other characters than what the text begins with. -/
theorem not_solid_of_isPrefix (hu : u <+: t) (h : t ++ [';'] <+: taken) :
    Text.solid taken ≠ Text.solid u := by
  obtain ⟨v, rfl⟩ := hu
  obtain ⟨w, rfl⟩ := h
  intro he
  have hlength := congrArg List.length he
  have hmark : Text.solid [';'] = [';'] := rfl
  rw [Text.solid_append, Text.solid_append, Text.solid_append, hmark, List.length_append,
    List.length_append, List.length_append, List.length_singleton] at hlength
  omega

/-- **Only a settled node is read from its text**: a scan that is not at the start
behind it does not see the semicolon there, which then is taken up as well. -/
theorem settled_of_read (hc : content.Normal)
    (h : Segment.read (content.text ++ (content.ending ++ rest)) = .ok (.single content, taken)) :
    content.Settled := by
  intro hb
  by_contra hrun
  have hsolid : Text.solid taken = Text.solid content.text := solid_read h
  cases content with
  | root => exact hc.regular
  | rule selector => cases hb
  | comment c => exact hrun rfl
  | declaration d =>
    refine not_solid_of_isPrefix (List.prefix_refl _) ?_ hsolid
    have hread := read_text hc.regular hc.passes rest
    exact (Text.Scan.span_of_run_ne hc.passes hrun ';' rest).trans
      (readPlain_span (hread.symm.trans h))
  | atRule r =>
    refine not_solid_of_isPrefix (List.prefix_refl _) ?_ hsolid
    have htail : start.run r.tail ≠ start := r.run_tail ▸ hrun
    have htaken : (readAtRule (r.name ++ (r.tail ++ ';' :: rest))).2 = taken := by
      have hh : Segment.read (r.header ++ ';' :: rest) = .ok (.single (.atRule r), taken) := h
      rw [r.header_eq, List.cons_append, List.append_assoc] at hh
      exact congrArg Prod.snd (Except.ok.inj hh)
    have hspan := readAtRule_span hc.regular.name (r.tail_append_head ';' rfl rest)
    rw [htaken] at hspan
    obtain ⟨u, hu⟩ := Text.Scan.span_of_run_ne (r.passes_tail hc.passes) htail ';' rest
    refine List.IsPrefix.trans ⟨u, ?_⟩ hspan
    rw [← hu]
    show r.header ++ [';'] ++ u = _
    rw [r.header_eq]
    simp

/-- **A node without a block is read back just if it is settled.** -/
theorem row_single (hc : content.Normal) (hb : content.isBlock = false) :
    Row (content.text ++ (content.ending ++ rest)) (.single content :: ss)
      ↔ content.Settled ∧ Row rest ss := by
  obtain ⟨c, t, ht, hgap⟩ := exists_head hc hb
  have hread : content.Settled →
      (Row (content.text ++ (content.ending ++ rest)) (.single content :: ss) ↔ Row rest ss) := by
    intro hs
    have hr := read_single hc hb hs rest
    rw [ht, List.cons_append] at hr ⊢
    rw [row_read hgap hr rfl, row_gaps content.gap_of_mem_ending]
  refine ⟨fun h => ?_, fun h => (hread h.1).2 h.2⟩
  have hs : content.Settled := by
    have hrow := h
    rw [ht, List.cons_append] at hrow
    obtain ⟨taken, hr⟩ := exists_read hgap hrow
    rw [← List.cons_append, ← ht] at hr
    exact settled_of_read hc hr
  exact ⟨hs, (hread hs).1 h⟩

end Segment
end MediaGrouping
