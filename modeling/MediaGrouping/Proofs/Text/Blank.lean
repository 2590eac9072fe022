/-
# Trimming

Trimming takes blanks off both ends of a text and nothing else (`Text.exists_trim`),
so that blanks around a text do not change what is left of it (`Text.trim_append`)
and no character but blanks is lost (`Text.solid_trim`). A trimmed text begins and
ends with characters that are not blank.
-/

import MediaGrouping.Text.Blank
import Mathlib.Data.List.DropRight
import Mathlib.Tactic.SplitIfs

namespace MediaGrouping
namespace Text

/-- A text of blanks only. -/
def Blank (t : Text) : Prop := ∀ c ∈ t, isBlank c = true

/-- **A trimmed text**: no blank stands at either end. -/
def Trimmed (t : Text) : Prop := trim t = t

instance (t : Text) : Decidable t.Blank :=
  decidable_of_iff (t.all isBlank = true) List.all_eq_true

instance (t : Text) : Decidable t.Trimmed := inferInstanceAs (Decidable (trim t = t))

/-- The characters of a text that are not blank. -/
def solid (t : Text) : Text := t.filter (!isBlank ·)

variable {t u b b' : Text} {c : Char}

theorem blank_nil : Blank [] := List.forall_mem_nil _

theorem blank_singleton (h : isBlank c = true) : Blank [c] := List.forall_mem_singleton.2 h

theorem Blank.append (h : Blank b) (h' : Blank b') : Blank (b ++ b') :=
  List.forall_mem_append.2 ⟨h, h'⟩

theorem blank_leadingBlanks (t : Text) : Blank (leadingBlanks t) := fun _ => List.mem_takeWhile_imp

theorem blank_trailingBlanks (t : Text) : Blank (trailingBlanks t) :=
  fun _ hc => List.mem_takeWhile_imp (List.mem_reverse.1 hc)

theorem leadingBlanks_append_trimStart (t : Text) : leadingBlanks t ++ trimStart t = t :=
  List.takeWhile_append_dropWhile

theorem trimEnd_append_trailingBlanks (t : Text) : trimEnd t ++ trailingBlanks t = t := by
  rw [trimEnd, trailingBlanks, ← List.reverse_append, List.takeWhile_append_dropWhile,
    List.reverse_reverse]

theorem trimStart_append (h : Blank b) (t : Text) : trimStart (b ++ t) = trimStart t :=
  List.dropWhile_append_of_pos h

theorem trimEnd_append (h : Blank b) (t : Text) : trimEnd (t ++ b) = trimEnd t := by
  rw [trimEnd, List.reverse_append, List.dropWhile_append_of_pos fun c hc =>
    h c (List.mem_reverse.1 hc), trimEnd]

theorem trimStart_of_not_blank (hc : isBlank c = false) (t : Text) :
    trimStart (c :: t) = c :: t :=
  List.dropWhile_cons_of_neg (by simp [hc])

theorem trimEnd_of_not_blank (hc : isBlank c = false) (t : Text) :
    trimEnd (t ++ [c]) = t ++ [c] :=
  List.rdropWhile_concat_neg _ _ _ (by simp [hc])

theorem trimStart_of_blank (h : Blank b) : trimStart b = [] := List.dropWhile_eq_nil_iff.2 h

/-- **Blanks around a text are trimmed off.** -/
theorem trim_append (h : Blank b) (h' : Blank b') (t : Text) :
    trim (b ++ t ++ b') = trim t := by
  rw [trim, List.append_assoc, trimStart_append h, trim, ← leadingBlanks_append_trimStart t,
    List.append_assoc, trimStart_append (blank_leadingBlanks t),
    trimStart_append (blank_leadingBlanks t)]
  cases hs : trimStart t with
  | nil => rw [List.nil_append, trimStart_of_blank h']; rfl
  | cons c rest =>
    -- the first character left is not blank, so the blanks after it are all that goes
    have hc : isBlank c = false := by
      have := List.head?_dropWhile_not isBlank t
      rw [show t.dropWhile isBlank = c :: rest from hs] at this
      simpa using this
    rw [List.cons_append, trimStart_of_not_blank hc, trimStart_of_not_blank hc,
      ← List.cons_append, trimEnd_append h']

theorem trim_cons (hc : isBlank c = true) (t : Text) : trim (c :: t) = trim t := by
  have := trim_append (blank_singleton hc) blank_nil t
  rwa [List.append_nil] at this

theorem trim_concat (hc : isBlank c = true) (t : Text) : trim (t ++ [c]) = trim t :=
  trim_append blank_nil (blank_singleton hc) t

/-- **A text is what trimming leaves of it, with blanks around.** -/
theorem exists_trim (t : Text) : ∃ b b', Blank b ∧ Blank b' ∧ t = b ++ trim t ++ b' :=
  ⟨leadingBlanks t, trailingBlanks (trimStart t), blank_leadingBlanks t, blank_trailingBlanks _, by
    rw [trim, List.append_assoc, trimEnd_append_trailingBlanks, leadingBlanks_append_trimStart]⟩

theorem length_trim_le (t : Text) : (trim t).length ≤ t.length := by
  obtain ⟨b, b', -, -, ht⟩ := exists_trim t
  have hl := congrArg List.length ht
  rw [List.length_append, List.length_append] at hl
  omega

theorem mem_of_mem_trim (h : c ∈ trim t) : c ∈ t := by
  obtain ⟨b, b', -, -, ht⟩ := exists_trim t
  rw [ht]
  exact List.mem_append_left _ (List.mem_append_right _ h)

/-- A text that begins with a character other than a blank is not trimmed to nothing. -/
theorem trim_ne_nil (hc : isBlank c = false) (t : Text) : trim (c :: t) ≠ [] := by
  intro hnil
  obtain ⟨b, b', hb, hb', ht⟩ := exists_trim (c :: t)
  rw [hnil, List.append_nil] at ht
  have hblank := (hb.append hb') c (ht ▸ List.mem_cons_self)
  rw [hc] at hblank
  cases hblank

theorem solid_append (t u : Text) : solid (t ++ u) = solid t ++ solid u := List.filter_append ..

theorem solid_of_blank (h : Blank b) : solid b = [] :=
  List.filter_eq_nil_iff.2 fun c hc => by simp [h c hc]

/-- **Trimming loses nothing but blanks.** -/
theorem solid_trim (t : Text) : solid (trim t) = solid t := by
  obtain ⟨b, b', hb, hb', ht⟩ := exists_trim t
  conv_rhs => rw [ht]
  rw [solid_append, solid_append, solid_of_blank hb, solid_of_blank hb', List.append_nil,
    List.nil_append]

theorem solid_trimEnd (t : Text) : solid (trimEnd t) = solid t := by
  conv_rhs => rw [← trimEnd_append_trailingBlanks t]
  rw [solid_append, solid_of_blank (blank_trailingBlanks t), List.append_nil]

/-- **What has been trimmed is trimmed.** -/
theorem trimmed_trim (t : Text) : Trimmed (trim t) := by
  obtain ⟨b, b', hb, hb', ht⟩ := exists_trim t
  have := trim_append hb hb' (trim t)
  rw [← ht] at this
  exact this.symm

namespace Trimmed

/-- A trimmed text does not begin with a blank. -/
theorem head (h : Trimmed (c :: t)) : isBlank c = false := by
  by_contra hc
  rw [Bool.not_eq_false] at hc
  have hl := congrArg List.length h
  have hle := length_trim_le t
  rw [trim_cons hc, List.length_cons] at hl
  omega

/-- A trimmed text does not end with a blank. -/
theorem last (h : Trimmed (t ++ [c])) : isBlank c = false := by
  by_contra hc
  rw [Bool.not_eq_false] at hc
  have hl := congrArg List.length h
  have hle := length_trim_le t
  rw [trim_concat hc, List.length_append, List.length_singleton] at hl
  omega

theorem trimStart (h : Trimmed t) : trimStart t = t := by
  cases t with
  | nil => rfl
  | cons c t => exact trimStart_of_not_blank h.head t

end Trimmed

/-- A text that does not begin with a blank is only cut at its end. -/
theorem trimStart_of_head (h : ∀ d ∈ t.head?, isBlank d = false) : trimStart t = t := by
  cases t with
  | nil => rfl
  | cons c t => exact trimStart_of_not_blank (h c rfl) t

theorem trim_of_head (h : ∀ d ∈ t.head?, isBlank d = false) : trim t = trimEnd t := by
  rw [trim, trimStart_of_head h]

theorem trimEnd_isPrefix (t : Text) : trimEnd t <+: t :=
  ⟨trailingBlanks t, trimEnd_append_trailingBlanks t⟩

/-- What a text begins with has the first character of the text, if it has any. -/
theorem forall_head_of_isPrefix {p : Char → Prop} (hu : u <+: t) (h : ∀ d ∈ t.head?, p d) :
    ∀ d ∈ u.head?, p d := by
  obtain ⟨rest, rfl⟩ := hu
  cases u with
  | nil => exact nofun
  | cons c u => exact h

/-- A text that does not begin with a blank begins with what is left of it. -/
theorem trim_isPrefix (h : ∀ d ∈ t.head?, isBlank d = false) : trim t <+: t := by
  rw [trim_of_head h]
  exact trimEnd_isPrefix t

/-- What ends with a trimmed text is only cut at its beginning. -/
theorem trim_append_of_trimmed (ht : Trimmed t) (hne : t ≠ []) (u : Text) :
    trim (u ++ t) = trimStart u ++ t := by
  have hstart : trimStart (u ++ t) = trimStart u ++ t := by
    rw [trimStart, List.dropWhile_append]
    split_ifs with h
    · rw [trimStart, List.isEmpty_iff.1 h, List.nil_append]
      exact ht.trimStart
    · rfl
  rcases List.eq_nil_or_concat' t with rfl | ⟨rest, c, rfl⟩
  · exact absurd rfl hne
  · rw [trim, hstart, ← List.append_assoc, trimEnd_of_not_blank ht.last]

/-- **The blanks before and after a text that is trimmed and not empty.** -/
theorem leadingBlanks_append (hb : Blank b) (ht : Trimmed t) (hne : t ≠ []) (u : Text) :
    leadingBlanks (b ++ t ++ u) = b := by
  obtain ⟨c, rest, rfl⟩ := List.exists_cons_of_ne_nil hne
  rw [leadingBlanks, List.append_assoc, List.takeWhile_append_of_pos hb, List.cons_append,
    List.takeWhile_cons_of_neg (by simp [ht.head]), List.append_nil]

theorem trailingBlanks_append (hb : Blank b) (ht : Trimmed t) (hne : t ≠ []) (u : Text) :
    trailingBlanks (u ++ t ++ b) = b := by
  rcases List.eq_nil_or_concat' t with rfl | ⟨rest, c, rfl⟩
  · exact absurd rfl hne
  · have hb' : ∀ d ∈ b.reverse, isBlank d = true := fun d hd => hb d (List.mem_reverse.1 hd)
    rw [trailingBlanks, List.reverse_append, List.reverse_append, List.reverse_append,
      List.takeWhile_append_of_pos hb', List.reverse_singleton, List.singleton_append,
      List.cons_append, List.takeWhile_cons_of_neg (by simp [ht.last]), List.append_nil,
      List.reverse_reverse]

end Text
end MediaGrouping
