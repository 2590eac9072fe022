/-
# What reading guarantees of a node

A node that was read is regular: its parts are trimmed, and its text begins neither
like an at-rule nor like a comment (`Content.Regular`). A scan passes over the text
that was read up to a stop, of which trimming may have cut the character that an
escape at its end was for; the blank before an opening brace makes up for that
(`Content.Normal`). Every segment that is read is normal (`Segment.Spelled.normal`), and
so is every node of a sheet that was read (`Tree.normal_of_parse`).
-/

import MediaGrouping.Proofs.Sheet.Assembling
import MediaGrouping.Proofs.Sheet.Written
import MediaGrouping.Proofs.Text.Scan

namespace MediaGrouping

open Text (Blank Trimmed)
open Text.Scan (Passes start)

/-! ### Normal nodes -/

/-- An at-rule with a name of name characters and trimmed parameters. -/
structure AtRule.Regular (r : AtRule) : Prop where
  name : ∀ c ∈ r.name, Segment.isNameChar c = true
  params : Trimmed r.params

/-- A declaration whose property ends at the first colon, and whose value ends in
`!important` only if it is important. -/
structure Declaration.Regular (d : Declaration) : Prop where
  property : Trimmed d.property
  colon : ':' ∉ d.property
  value : Trimmed d.value
  important : "!important".toList <:+ d.value → d.important = true
  plain : Segment.Plain d.text

namespace Content

/-- The text of a node that is read up to a stop. -/
def prelude : Content → Text
  | .root => []
  | .atRule r => r.params
  | .rule selector => selector
  | .declaration d => d.text
  | .comment _ => []

/-- **A regular node**: its parts are trimmed, and are what its text is taken apart
into. -/
def Regular : Content → Prop
  | .root => False
  | .atRule r => r.Regular
  | .rule selector => Trimmed selector ∧ Segment.Plain selector
  | .declaration d => d.Regular
  | .comment c => c.Regular ∧ ¬ ['*', '/'] <:+: c.raw

instance (r : AtRule) : Decidable r.Regular :=
  decidable_of_iff (r.name.all Segment.isNameChar = true ∧ Trimmed r.params)
    ⟨fun h => ⟨List.all_eq_true.1 h.1, h.2⟩, fun h => ⟨List.all_eq_true.2 h.1, h.2⟩⟩

instance (d : Declaration) : Decidable d.Regular :=
  decidable_of_iff (Trimmed d.property ∧ ':' ∉ d.property ∧ Trimmed d.value ∧
      ("!important".toList <:+ d.value → d.important = true) ∧ Segment.Plain d.text)
    ⟨fun h => ⟨h.1, h.2.1, h.2.2.1, h.2.2.2.1, h.2.2.2.2⟩,
      fun h => ⟨h.property, h.colon, h.value, h.important, h.plain⟩⟩

instance (c : Comment) : Decidable c.Regular :=
  decidable_of_iff (Blank c.left ∧ Trimmed c.text ∧ Blank c.right ∧ (c.text = [] → c.right = []))
    ⟨fun h => ⟨h.1, h.2.1, h.2.2.1, h.2.2.2⟩, fun h => ⟨h.left, h.text, h.right, h.right_eq_nil⟩⟩

instance : DecidablePred Regular
  | .root => inferInstanceAs (Decidable False)
  | .atRule r => inferInstanceAs (Decidable r.Regular)
  | .rule selector => inferInstanceAs (Decidable (Trimmed selector ∧ Segment.Plain selector))
  | .declaration d => inferInstanceAs (Decidable d.Regular)
  | .comment c => inferInstanceAs (Decidable (c.Regular ∧ ¬ ['*', '/'] <:+: c.raw))

/-- **A normal node**: a scan passes over its text, and is at the start before the
brace that opens its block. -/
structure Normal (c : Content) : Prop where
  regular : c.Regular
  passes : Passes Segment.stops start c.prelude
  closed : c.isBlock = true → start.run (c.prelude ++ [' ']) = start

end Content

namespace Segment

variable {s : Segment} {t v taken : Text}

/-- **A header is closed by the blank written after it**, if a scan over the text it
was trimmed from ends at the start. -/
theorem run_trim_concat (h : start.run t = start) : start.run (Text.trim t ++ [' ']) = start := by
  have hspace : ∀ c ∈ [' '], Text.Scan.isControl c = false := List.forall_mem_singleton.2 rfl
  rw [Text.Scan.run_append,
    Text.Scan.run_of_inert (Text.Scan.sound_start.run _) hspace (List.cons_ne_nil _ _),
    Text.Scan.settle_run_trim Text.Scan.sound_start rfl, h, Text.Scan.settle_start]

/-! ### Declarations -/

theorem splitImportant_isPrefix (v : Text) : (splitImportant v).1 <+: v := by
  rw [splitImportant]
  cases h : Text.dropTail? "!important".toList v with
  | none => exact List.prefix_refl v
  | some plain =>
    rw [Text.eq_append_of_dropTail? h]
    exact (Text.trimEnd_isPrefix plain).trans (List.prefix_append _ _)

theorem trimmed_splitImportant (h : Trimmed v) : Trimmed (splitImportant v).1 := by
  rw [splitImportant]
  cases hv : Text.dropTail? "!important".toList v with
  | none => exact h
  | some plain =>
    have hhead : ∀ c ∈ plain.head?, Text.isBlank c = false := by
      intro c hc
      obtain ⟨rest, rfl⟩ := List.head?_eq_some_iff.1 hc
      rw [Text.eq_append_of_dropTail? hv] at h
      exact h.head
    show Trimmed (Text.trimEnd plain)
    rw [← Text.trim_of_head hhead]
    exact Text.trimmed_trim plain

theorem splitImportant_important (h : "!important".toList <:+ (splitImportant v).1) :
    (splitImportant v).2 = true := by
  rw [splitImportant] at h ⊢
  cases hv : Text.dropTail? "!important".toList v with
  | none =>
    rw [hv] at h
    obtain ⟨u, hu⟩ := h
    rw [← show u ++ _ = v from hu, Text.dropTail?_append] at hv
    cases hv
  | some plain => rfl

/-- The state of a scan behind the colon of a declaration: it is in no escape, and
blanks at the colon make no difference. -/
theorem run_colon (p : Text) {b b' : Text} (hb : Blank b) (hb' : Blank b') :
    start.run (p ++ (b ++ ':' :: b')) = (start.run p).settle := by
  have hinert : ∀ c ∈ b ++ ':' :: b', Text.Scan.isControl c = false :=
    List.forall_mem_append.2 ⟨Text.Scan.inert_of_blank hb,
      List.forall_mem_cons.2 ⟨rfl, Text.Scan.inert_of_blank hb'⟩⟩
  rw [Text.Scan.run_append, Text.Scan.run_of_inert (Text.Scan.sound_start.run p) hinert (by simp)]

/-- **A scan that passes over a declaration as read passes over it as written.** -/
theorem passes_declaration {p b rest : Text} (hb : Blank b)
    (h : Passes stops start (p ++ b ++ ':' :: rest)) :
    Passes stops start (Declaration.text ⟨p, (splitImportant (Text.trim rest)).1,
      (splitImportant (Text.trim rest)).2⟩) := by
  have hsound : (start.run p).settle.Sound := (Text.Scan.sound_start.run p).settle
  have hp : Passes stops start p :=
    h.of_isPrefix ((List.prefix_append _ _).trans (List.prefix_append _ _))
  have hrest : Passes stops (start.run p).settle rest := by
    rw [← run_colon p hb Text.blank_nil]
    refine (Text.Scan.passes_append.1 ?_).2
    simpa using h
  have hvalue : Passes stops (start.run p).settle (splitImportant (Text.trim rest)).1 :=
    (hrest.trim hsound (Text.Scan.settle_settle _)).of_isPrefix (splitImportant_isPrefix _)
  rw [Declaration.text, Text.Scan.passes_append, Text.Scan.passes_append, Text.Scan.passes_append]
  refine ⟨⟨⟨hp, ?_⟩, ?_⟩, ?_⟩
  · exact Text.Scan.passes_of_all rfl
  · rw [show start.run (p ++ [':', ' ']) = _ from
      run_colon p Text.blank_nil (Text.blank_singleton rfl)]
    exact hvalue
  · refine Text.Scan.passes_of_all ?_
    split_ifs <;> rfl

/-! ### Reading -/

/-- **Every segment that is read is normal**, if it is read where no blank is. -/
theorem Spelled.normal (h : s.Spelled taken) (hgap : ∀ c ∈ taken.head?, Lexeme.isGap c = false) :
    s.Shaped Content.Normal := by
  -- what begins where the segment does is only trimmed at its end
  have hblank : ∀ {u : Text}, u <+: taken → ∀ c ∈ u.head?, Text.isBlank c = false := fun hu =>
    Text.forall_head_of_isPrefix hu fun c hc => (Bool.or_eq_false_iff.1 (hgap c hc)).1
  cases h with
  | closing => exact trivial
  | @block name params hname hclosed =>
    exact ⟨⟨⟨hname, Text.trimmed_trim params⟩, hclosed.passes.trim Text.Scan.sound_start rfl,
      fun _ => run_trim_concat hclosed.run⟩, rfl⟩
  | @statement name params hname hpasses =>
    exact ⟨⟨⟨hname, Text.trimmed_trim params⟩, hpasses.trim Text.Scan.sound_start rfl,
      fun hb => absurd hb Bool.false_ne_true⟩, rfl⟩
  | @rule text hplain hclosed =>
    have hcut := Text.trim_isPrefix (hblank (List.prefix_append text ['{']))
    exact ⟨⟨⟨Text.trimmed_trim text, hplain.of_isPrefix hcut⟩,
      hclosed.passes.trim Text.Scan.sound_start rfl, fun _ => run_trim_concat hclosed.run⟩, rfl⟩
  | @declaration p rest hcolon hplain hpasses =>
    have hp : p <+: p ++ ':' :: rest := List.prefix_append _ _
    have hcut := Text.trim_isPrefix (hblank hp)
    have hblanks : p = Text.trim p ++ Text.trailingBlanks p := by
      rw [Text.trim_of_head (hblank hp), Text.trimEnd_append_trailingBlanks]
    refine ⟨⟨⟨Text.trimmed_trim p, fun hm => hcolon (hcut.subset hm),
      trimmed_splitImportant (Text.trimmed_trim rest), splitImportant_important, ?_⟩, ?_,
      fun hb => absurd hb Bool.false_ne_true⟩, rfl⟩
    · rw [Declaration.text_eq]
      exact (hplain.of_isPrefix (hcut.trans hp)).append (by decide) _
    · refine passes_declaration (Text.blank_trailingBlanks p) ?_
      rwa [← hblanks]
  | @comment raw hraw =>
    have hregular : (Content.comment (.ofRaw raw)).Regular := by
      refine ⟨Comment.regular_ofRaw raw, ?_⟩
      rwa [Comment.raw_ofRaw]
    exact ⟨⟨hregular, Text.Scan.passes_nil, fun hb => absurd hb Bool.false_ne_true⟩, rfl⟩

end Segment

/-- **Every node of a sheet that was read is normal.** -/
theorem Tree.normal_of_parse {css : Text} {t : Tree} (h : Tree.parse css = .ok t) :
    ∀ c ∈ t.children, c.Shaped Content.Normal :=
  Tree.shaped_of_parse Segment.Spelled.normal h

end MediaGrouping
