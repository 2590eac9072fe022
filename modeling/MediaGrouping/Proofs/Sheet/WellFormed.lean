/-
# Well-formed sheets

What a sheet that was read is made of, node by node (`Content.WellFormed`): names of name
characters; texts that are trimmed, and in which neither a scan nor a split of the list meets a stop
(`Segment.Whole`); selectors and properties that begin with nothing that is read as something else
(`Segment.Leads`). All this holds of a normal node (`Content.Normal.wellFormed`), and each node has
the position of the lexeme that begins it (`Tree.Makes.placed`). So every sheet that was read is
well formed (`Tree.wellFormed_of_parse`).
-/

import MediaGrouping.Proofs.Sheet.Places

namespace MediaGrouping

open Text (Trimmed)
open Text.Scan (Passes start)

namespace Segment

variable {t : Text}

/-- What a text begins with that is neither a header nor a declaration. -/
def marks : List Text := [['@'], [';'], ['}'], ['/', '*']]

/-- **A text that leads a header or a declaration** begins with no mark of anything else. -/
def Leads (t : Text) : Prop := ∀ mark ∈ marks, ¬ mark <+: t

/-- **A whole text**: no stop stands in it outside quotes, escapes and parentheses, and to split it
at stops gives it back. -/
structure Whole (t : Text) : Prop where
  single : Text.Single stops t
  split : Text.split stops true t = [t]

theorem whole_of_passes (ht : Trimmed t) (h : Passes stops start t) : Whole t :=
  ⟨Text.single_iff.2 h, by rw [(Text.split_of_passes h).1, ht]⟩

/-- A plain text leads, since a scan that passes over it does not begin with a stop. -/
theorem leads_of_plain (h : Plain t) (hpasses : Passes stops start t) : Leads t := by
  have hstop : ∀ c ∈ stops, ¬ [c] <+: t := by
    rintro c hc ⟨rest, rfl⟩
    exact not_stop_of_passes hpasses hc
  simp only [Leads, marks, List.forall_mem_cons]
  exact ⟨h.at_sign, hstop ';' (by decide), hstop '}' (by decide), h.comment_mark,
    List.forall_mem_nil _⟩

end Segment

/-- A declaration in normal form. -/
structure Declaration.WellFormed (d : Declaration) : Prop where
  property : Trimmed d.property
  leads : Segment.Leads d.property
  colon : ':' ∉ d.property
  value : Trimmed d.value
  important : "!important".toList <:+ d.value → d.important = true

namespace Content

/-- **A node in normal form**, which no root is. -/
def WellFormed : Content → Prop
  | .root => False
  | .atRule r => r.Regular ∧ Segment.Whole r.params
  | .rule selector => Trimmed selector ∧ Segment.Leads selector ∧ Segment.Whole selector
  | .declaration d => d.WellFormed
  | .comment c => c.Regular ∧ ¬ ['*', '/'] <:+: c.raw

/-- **A normal node is in normal form.** -/
theorem Normal.wellFormed {c : Content} (h : c.Normal) : c.WellFormed := by
  obtain ⟨hregular, hpasses, -⟩ := h
  cases c with
  | root => exact hregular
  | atRule r => exact ⟨hregular, Segment.whole_of_passes hregular.params hpasses⟩
  | rule selector =>
    obtain ⟨htrimmed, hplain⟩ := hregular
    exact ⟨htrimmed, Segment.leads_of_plain hplain hpasses,
      Segment.whole_of_passes htrimmed hpasses⟩
  | declaration d =>
    have hproperty : d.property <+: d.text := d.text_eq ▸ List.prefix_append _ _
    exact ⟨hregular.property, Segment.leads_of_plain (hregular.plain.of_isPrefix hproperty)
      (hpasses.of_isPrefix hproperty), hregular.colon, hregular.value, hregular.important⟩
  | comment c => exact hregular

end Content

namespace Tree

variable {ls : List Lexeme} {ts : List Tree} {t : Tree} {css : Text}

/-- **Every node has the position of the lexeme that begins it.** -/
theorem Makes.placed (h : Makes ls ts) : ∀ n ∈ Tree.nodesAll ts, n.2.isSome = true := by
  rw [h.nodesAll]
  intro n hn
  obtain ⟨l, -, hl⟩ := List.mem_filterMap.1 hn
  unfold node? at hl
  split at hl
  · cases hl; rfl
  · cases hl; rfl
  · cases hl

/-- **A tree in normal form**: the top node is the only root and has no position, every other node
is in normal form and has one, and only nodes written with braces have children. -/
structure WellFormed (t : Tree) : Prop where
  root : t.content = .root
  source : t.source = none
  nodes : ∀ c ∈ t.children, c.Shaped Content.WellFormed
  placed : ∀ n ∈ nodesAll t.children, n.2.isSome = true

/-- **Every sheet that was read is in normal form.** -/
theorem wellFormed_of_parse (h : parse css = .ok t) : t.WellFormed := by
  obtain ⟨ts, ls, rfl, -, hmakes⟩ := parse_eq_ok_iff.1 h
  exact ⟨rfl, rfl, fun c hc => (normal_of_parse h c hc).imp fun _ => Content.Normal.wellFormed,
    hmakes.placed⟩

/-- A block with a declaration in it, and a comment. -/
theorem wellFormed_of_parse_media :
    ∃ t, parse "@media (;)\x7ba:b !important\x7d/* c*/".toList = .ok t ∧ t.WellFormed := by
  obtain ⟨t, ht⟩ : ∃ t, parse "@media (;)\x7ba:b !important\x7d/* c*/".toList = .ok t :=
    ⟨node .root none
      [node (.atRule ⟨"media".toList, "(;)".toList, true⟩) (some ⟨1, 1⟩)
        [node (.declaration ⟨['a'], ['b'], true⟩) (some ⟨1, 12⟩) []],
       node (.comment ⟨['c'], [' '], []⟩) (some ⟨1, 27⟩) []], by rfl⟩
  exact ⟨t, ht, wellFormed_of_parse ht⟩

end Tree
end MediaGrouping
