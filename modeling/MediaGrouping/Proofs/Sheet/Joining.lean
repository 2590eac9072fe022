/-
# Sheets one after the other

If a semicolon behind a sheet makes no difference to what is read, the sheet ends at the top level:
every segment of it is read as it was, whatever follows the semicolon (`Segment.read_of_mark`). So
what is read of a text behind the semicolon is what is read of that text alone, with positions
behind the sheet (`Lexeme.scanFrom_join`, `Lexeme.scanFrom_behind`), and goes behind the nodes of
the sheet (`Tree.assemble_behind`): reading is compositional (`Tree.parse_append`).
-/

import MediaGrouping.Proofs.Sheet.Positions
import MediaGrouping.Proofs.Sheet.Reading

namespace MediaGrouping

open Text.Scan (start)

namespace Segment

variable {s : Segment} {t taken taken' raw : Text}

/-! ### A semicolon behind a text -/

/-- The end of a comment is found whatever follows it. -/
theorem commentBody?_append_of_some (h : commentBody? t = some raw) (u : Text) :
    commentBody? (t ++ u) = some raw := by
  obtain ⟨left, rfl⟩ := commentBody?_eq h
  rw [List.append_assoc]
  exact commentBody?_append (not_infix_of_commentBody? h) (left ++ u)

/-- A semicolon behind a text does not make it begin with a brace. -/
theorem match_brace_append {α : Type} (left u : Text) (opened other : α) :
    (match left ++ ';' :: u with
      | '{' :: _ => opened
      | _ => other) = match left with
      | '{' :: _ => opened
      | _ => other := by
  cases left with
  | nil => rfl
  | cons d left =>
    by_cases hd : d = '{'
    · rw [hd]
      rfl
    · simp [hd]

/-- A semicolon behind a text is no part of a name. -/
theorem name_append_mark (t u : Text) :
    (t ++ ';' :: u).takeWhile isNameChar = t.takeWhile isNameChar ∧
      (t ++ ';' :: u).dropWhile isNameChar = t.dropWhile isNameChar ++ ';' :: u := by
  induction t with
  | nil => exact ⟨rfl, rfl⟩
  | cons c t ih =>
    rw [List.cons_append]
    by_cases hc : isNameChar c = true
    · simp [hc, ih]
    · simp [hc]

theorem readAtRule_append (t : Text) : (∀ u, readAtRule (t ++ ';' :: u) = readAtRule t) ∨
    ∀ u, '@' :: t ++ [';'] <+: (readAtRule (t ++ ';' :: u)).2 := by
  rcases Text.Scan.span_append_stop rfl (by decide : ';' ∈ stops) (t.dropWhile isNameChar)
    with hspan | hspan
  · refine .inl fun u => ?_
    obtain ⟨hname, hrest⟩ := name_append_mark t u
    rw [readAtRule, readAtRule, prelude_eq_span, prelude_eq_span]
    simp only [hname, hrest, hspan]
    exact match_brace_append _ u _ _
  · refine .inr fun u => ?_
    obtain ⟨hname, hrest⟩ := name_append_mark t u
    have ht : '@' :: t ++ [';']
        = '@' :: t.takeWhile isNameChar ++ (t.dropWhile isNameChar ++ [';']) := by
      show '@' :: (t ++ [';']) = '@' :: (t.takeWhile isNameChar ++ (_ ++ _))
      rw [← List.append_assoc, List.takeWhile_append_dropWhile]
    have hprefix := (List.prefix_append_right_inj ('@' :: t.takeWhile isNameChar)).2 (hspan u)
    rw [ht, readAtRule, prelude_eq_span]
    simp only [hname, hrest]
    split
    · exact hprefix.trans (List.prefix_append _ _)
    · exact hprefix

theorem readPlain_append (t : Text) : (∀ u, readPlain (t ++ ';' :: u) = readPlain t) ∨
    ∀ u s taken, readPlain (t ++ ';' :: u) = .ok (s, taken) → t ++ [';'] <+: taken := by
  rcases Text.Scan.span_append_stop rfl (by decide : ';' ∈ stops) t with hspan | hspan
  · refine .inl fun u => ?_
    rw [readPlain, readPlain, prelude_eq_span, prelude_eq_span, hspan]
    exact match_brace_append _ u _ _
  · exact .inr fun u s taken h => (hspan u).trans (readPlain_span h)

/-- **A semicolon behind a text** leaves the first segment as it is, or is taken up with all the
text before it, whatever follows. -/
theorem read_append (h : Segment.read t = .ok (s, taken)) :
    (∀ u, Segment.read (t ++ ';' :: u) = .ok (s, taken)) ∨
      ∀ u s' taken', Segment.read (t ++ ';' :: u) = .ok (s', taken') → t ++ [';'] <+: taken' := by
  unfold Segment.read at h
  split at h
  · cases h
    exact .inl fun _ => rfl
  · next rest =>
    have hr : readAtRule rest = (s, taken) := Except.ok.inj h
    rcases readAtRule_append rest with hsame | hmore
    · exact .inl fun u => congrArg Except.ok ((hsame u).trans hr)
    · refine .inr fun u s' taken' h' => ?_
      have htaken : (readAtRule (rest ++ ';' :: u)).2 = taken' :=
        congrArg Prod.snd (Except.ok.inj h')
      exact htaken ▸ hmore u
  · next rest =>
    split at h
    · next raw hraw =>
      cases h
      refine .inl fun u => ?_
      rw [List.cons_append, List.cons_append, Segment.read, commentBody?_append_of_some hraw]
    · cases h
  · next hclose hat hmark =>
    have hplain : Plain t := by
      constructor
      · rintro ⟨rest, rfl⟩
        exact hat rest rfl
      · rintro ⟨rest, rfl⟩
        exact hmark rest rfl
    have hread : ∀ u, Segment.read (t ++ ';' :: u) = readPlain (t ++ ';' :: u) := by
      refine fun u => read_of_plain (hplain.append (by decide) u) fun he => ?_
      cases t with
      | nil => cases he
      | cons c t =>
        cases he
        exact hclose t rfl
    rcases readPlain_append t with hsame | hmore
    · exact .inl fun u => ((hread u).trans (hsame u)).trans h
    · exact .inr fun u s' taken' h' => hmore u s' taken' ((hread u).symm.trans h')

/-- **A segment that a semicolon behind the text does not change** is read whatever follows the
semicolon: it has no more characters than before, so that the semicolon was not taken up. -/
theorem read_of_mark (h : Segment.read t = .ok (s, taken))
    (h' : Segment.read (t ++ [';']) = .ok (s, taken')) (u : Text) :
    Segment.read (t ++ ';' :: u) = .ok (s, taken) := by
  rcases read_append h with hsame | hmore
  · exact hsame u
  · obtain ⟨-, left, rfl⟩ := read_taken h
    have hsolid : Text.solid taken' = Text.solid taken := (solid_read h').trans (solid_read h).symm
    exact absurd hsolid (not_solid_of_isPrefix (List.prefix_append _ _) (hmore [] s taken' h'))

end Segment

/-! ### Lexemes behind a text -/

/-- A lexeme behind a text. -/
def Lexeme.behind (w : Text) (l : Lexeme) : Lexeme := ⟨l.segment, l.position.behind w⟩

/-- An error behind a text. -/
def ParseError.behind (w : Text) (e : ParseError) : ParseError := ⟨e.fault, e.position.behind w⟩

namespace Lexeme

open Segment (Row)

variable {ss : List Segment} {t : Text}

/-- **A text behind the semicolon of a row** is read as it is, from the position there. -/
theorem scanFrom_join (h : Row t ss) (h' : Row (t ++ [';']) ss) (u : Text) (p : Position) :
    scanFrom 0 p (t ++ ';' :: u) =
      ((scanFrom 0 p t).1 ++ (scanFrom 0 (p.advance (t ++ [';'])) u).1,
        (scanFrom 0 (p.advance (t ++ [';'])) u).2) := by
  induction h generalizing p with
  | nil => exact scanFrom_gap rfl p u
  | gap hc _ ih =>
    rw [List.cons_append, scanFrom_gap hc, scanFrom_gap hc]
    exact ih ((Segment.row_gap hc).1 h') _
  | @read c t taken left s ss hc hr ht _ ih =>
    obtain ⟨taken', hr'⟩ := Segment.exists_read hc h'
    have hread : ∀ v, Segment.read (c :: (t ++ ';' :: v)) = .ok (s, taken) :=
      Segment.read_of_mark hr hr'
    have hsplit : ∀ v, c :: (t ++ ';' :: v) = taken ++ (left ++ ';' :: v) := by
      intro v
      rw [← List.append_assoc, ← ht, List.cons_append]
    have hleft := (Segment.row_read hc (hread []) (hsplit [])).1 h'
    have hend : p.advance (c :: t ++ [';']) = (p.advance taken).advance (left ++ [';']) := by
      rw [← Position.advance_append, ← hsplit []]
      rfl
    rw [List.cons_append, scanFrom_read hc (hread u) (hsplit u), scanFrom_read hc hr ht, hend,
      ih hleft]
    rfl

/-- **What is read of a text does not depend on where it stands**, up to positions. -/
theorem scanFrom_behind (w t : Text) : ∀ {skip : Nat} {p : Position}, 1 ≤ p.line →
    scanFrom skip (p.behind w) t =
      ((scanFrom skip p t).1.map (behind w), (scanFrom skip p t).2.map (ParseError.behind w)) := by
  induction t with
  | nil => exact fun _ => rfl
  | cons c rest ih =>
    intro skip p hp
    have hline := Position.one_le_line_step hp c
    cases skip with
    | succ skip =>
      rw [scanFrom, scanFrom, ← Position.behind_step w hp]
      exact ih hline
    | zero =>
      cases hc : isGap c with
      | true =>
        rw [scanFrom_gap hc, scanFrom_gap hc, ← Position.behind_step w hp]
        exact ih hline
      | false =>
        have hno : ¬ isGap c = true := by simp [hc]
        rw [scanFrom, scanFrom, if_neg hno, if_neg hno, ← Position.behind_step w hp]
        cases Segment.read (c :: rest) with
        | error fault => rfl
        | ok r =>
          dsimp only
          rw [ih hline]
          rfl

/-- **A text behind the semicolon of a row** adds its own lexemes. -/
theorem scan_join (h : Row t ss) (h' : Row (t ++ [';']) ss) (u : Text) :
    scan (t ++ ';' :: u) = ((scan t).1 ++ (scan u).1.map (behind (t ++ [';'])),
      (scan u).2.map (ParseError.behind (t ++ [';']))) := by
  unfold scan
  rw [scanFrom_join h h', ← Position.behind_start, scanFrom_behind _ _ (Nat.le_refl 1)]

end Lexeme

namespace Tree

mutual

/-- A tree behind a text. -/
def behind (w : Text) : Tree → Tree
  | .node c p children => .node c (p.map (Position.behind w)) (behindAll w children)

/-- Trees behind a text. -/
def behindAll (w : Text) : List Tree → List Tree
  | [] => []
  | t :: ts => t.behind w :: behindAll w ts

end

variable {error : Option ParseError} {frames frames' : List Frame} {nodes nodes' ts : List Tree}
  {base : List Tree} {ls : List Lexeme} {w a b : Text} {t : Tree}

theorem behindAll_eq_map (w : Text) (ts : List Tree) : behindAll w ts = ts.map (behind w) := by
  induction ts with
  | nil => rfl
  | cons t ts ih => rw [behindAll, ih, List.map_cons]

theorem behindAll_reverse (w : Text) (ts : List Tree) :
    behindAll w ts.reverse = (behindAll w ts).reverse := by
  rw [behindAll_eq_map, behindAll_eq_map, List.map_reverse]

/-- **The same open blocks and nodes behind a text**, with nodes before all of them, the latest
first. -/
inductive Follows (w : Text) (base : List Tree) :
    List Frame → List Tree → List Frame → List Tree → Prop where
  | top {nodes : List Tree} : Follows w base [] nodes [] (behindAll w nodes ++ base)
  | inside {header : Content} {p : Position} {outer outer' : List Frame}
    {before before' nodes : List Tree} :
    Follows w base outer before outer' before' →
    Follows w base (⟨header, p, before⟩ :: outer) nodes
      (⟨header, p.behind w, before'⟩ :: outer') (behindAll w nodes)

theorem Follows.cons (h : Follows w base frames nodes frames' nodes') (t : Tree) :
    Follows w base frames (t :: nodes) frames' (t.behind w :: nodes') := by
  cases h with
  | top => exact .top
  | inside ho => exact .inside ho

/-- **Lexemes make up the same trees behind a text**, after the nodes that are there, and the same
is wrong with them. -/
theorem assemble_behind (h : Follows w base frames nodes frames' nodes') :
    assemble (error.map (ParseError.behind w)) frames' nodes' (ls.map (Lexeme.behind w)) =
      match assemble error frames nodes ls with
      | .ok ts => .ok (base.reverse ++ behindAll w ts)
      | .error e => .error (e.behind w) := by
  induction ls generalizing frames nodes frames' nodes' with
  | nil =>
    cases error with
    | some e => rfl
    | none =>
      cases h with
      | inside ho => rfl
      | top =>
        show Except.ok _ = Except.ok _
        rw [behindAll_reverse, List.reverse_append]
  | cons l ls ih =>
    have hkind : (l.behind w).segment = l.segment := rfl
    rw [List.map_cons]
    cases hl : l.segment with
    | single c =>
      rw [assemble_single hl, assemble_single (hkind.trans hl)]
      exact ih (h.cons (.node c (some l.position) []))
    | opening c =>
      rw [assemble_opening hl, assemble_opening (hkind.trans hl)]
      exact ih (.inside h)
    | closing =>
      cases h with
      | top =>
        rw [assemble_stray hl, assemble_stray (hkind.trans hl)]
        rfl
      | @inside header p outer outer' before before' nodes ho =>
        rw [assemble_closing hl, assemble_closing (hkind.trans hl), Frame.close, Frame.close,
          ← behindAll_reverse]
        exact ih (ho.cons (.node header (some p) nodes.reverse))

/-- **Reading is compositional.** If a semicolon behind a sheet changes nothing, what follows the
semicolon is read as it is alone, whether it can be read or not: its nodes come after those of the
sheet, or the same fault is reported, with positions behind the sheet and the semicolon. Marks
before the sheet are not counted in positions, so they do not move what follows either. -/
theorem parse_append (ha : parse a = .ok t) (hmark : parse (a ++ [';']) = .ok t)
    (hb : b.head? ≠ some '\uFEFF') :
    parse (a ++ ';' :: b) = match parse b with
      | .ok u => .ok (.node .root none
          (t.children ++ behindAll (withoutMarks a ++ [';']) u.children))
      | .error e => .error (e.behind (withoutMarks a ++ [';'])) := by
  obtain ⟨ts, ls, rfl, hscan, hmakes⟩ := parse_eq_ok_iff.1 ha
  obtain ⟨ts₁, he₁, hrow⟩ := row_of_parse ha
  obtain ⟨ts₂, he₂, hrow'⟩ := row_of_parse hmark
  obtain rfl : ts = ts₁ := congrArg children he₁
  obtain rfl : ts = ts₂ := congrArg children he₂
  rw [withoutMarks_append] at hrow'
  have htop : Follows (withoutMarks a ++ [';']) ts.reverse [] [] [] ts.reverse := .top
  rw [parse_eq, parse_eq, withoutMarks_append, withoutMarks_of_head hb,
    Lexeme.scan_join hrow hrow', hscan, hmakes.assemble, List.append_nil, assemble_behind htop,
    List.reverse_reverse]
  cases assemble (Lexeme.scan b).2 [] [] (Lexeme.scan b).1 with
  | ok us => rfl
  | error e => rfl

/-- A semicolon ends a declaration: what follows it stands behind four characters, on the first
line only. -/
theorem parse_append_declaration :
    ∃ t, parse "a:b".toList = .ok t ∧ parse "a:b;".toList = .ok t ∧
      parse "a:b;c\x7b\x7d\nd\x7b\x7d".toList = .ok (.node .root none (t.children ++
        [.node (.rule ['c']) (some ⟨1, 5⟩) [], .node (.rule ['d']) (some ⟨2, 1⟩) []])) ∧
      parse "a:b;c".toList = .error ⟨.unknownWord ['c'], ⟨1, 5⟩⟩ := by
  obtain ⟨t, ha⟩ : ∃ t, parse "a:b".toList = .ok t := ⟨_, rfl⟩
  have hmark : parse "a:b;".toList = .ok t := ha
  have happend := fun b hb => parse_append (b := b) ha hmark hb
  exact ⟨t, ha, hmark, happend "c\x7b\x7d\nd\x7b\x7d".toList (by decide),
    happend "c".toList (by decide)⟩

end Tree
end MediaGrouping
