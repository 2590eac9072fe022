/-
# The leftmost length

What a length looks like is said here by its parts (`Spelling`): a sign or none, digits or
none, a point or none, at least one digit, a unit. Where a text begins with a length there
is one way only to read it (`read?_text`, `exists_of_read?`): the digits before the unit are
all of them, and what precedes them is a point or no part of the length. So the length that
is found begins leftmost, and no other begins at the same character (`find?_leftmost`). What
it measures is the product of its number and its unit (`Spelling.size_length`).
-/

import MediaGrouping.Proofs.Query.Measuring

namespace MediaGrouping

namespace LengthUnit

/-- The name of a unit. -/
def text : LengthUnit → Text
  | .ch => ['c', 'h']
  | .em => ['e', 'm']
  | .ex => ['e', 'x']
  | .px => ['p', 'x']
  | .rem => ['r', 'e', 'm']

theorem read?_text (u : LengthUnit) (t : Text) : read? (u.text ++ t) = some u := by
  cases u <;> rfl

theorem exists_of_read? {t : Text} {u : LengthUnit} (h : read? t = some u) :
    ∃ rest, t = u.text ++ rest := by
  unfold read? at h
  split at h
  all_goals first | contradiction | (obtain rfl := Option.some.inj h; exact ⟨_, rfl⟩)

/-- No name of a unit begins with a digit or a point. -/
theorem exists_text (u : LengthUnit) :
    ∃ c name, u.text = c :: name ∧ Text.isDecimalDigit c = false ∧ c ≠ '.' := by
  cases u <;> exact ⟨_, _, rfl, by decide, by decide⟩

end LengthUnit

namespace Length

open Text (isDecimalDigit)

/-- **A length as it is written.** -/
structure Spelling where
  sign : Text
  whole : Text
  point : Text
  fraction : Text
  unit : LengthUnit
  sign_or : sign = [] ∨ sign = ['-']
  whole_digit : ∀ c ∈ whole, isDecimalDigit c = true
  point_or : point = [] ∨ point = ['.']
  fraction_ne : fraction ≠ []
  fraction_digit : ∀ c ∈ fraction, isDecimalDigit c = true

namespace Spelling

/-- The number before the unit. -/
def number (s : Spelling) : Text := s.sign ++ s.whole ++ s.point ++ s.fraction

/-- The length with its unit. -/
def text (s : Spelling) : Text := s.number ++ s.unit.text

/-- The length occurs in a text, beginning after `i` characters. -/
def At (s : Spelling) (t : Text) (i : Nat) : Prop :=
  ∃ before after, before.length = i ∧ t = before ++ s.text ++ after

/-- What the number stands for in ASCII digits, correctly rounded. -/
def value (s : Spelling) : Binary64 :=
  .ofQuotient (s.sign == ['-']) (numeral (s.whole ++ s.fraction))
    (Nat.pow 10 (if s.point = [] then 0 else s.fraction.length))

/-- The length that is read; without a point, all digits stand before it. -/
def length (s : Spelling) : Length :=
  if s.point = [] then ⟨s.sign == ['-'], s.whole ++ s.fraction, [], s.unit⟩
  else ⟨s.sign == ['-'], s.whole, s.fraction, s.unit⟩

end Spelling

variable {negative : Bool} {t digits whole fraction : Text} {l : Length}

/-! ### Reading -/

theorem takeWhile_digits (h : ∀ c ∈ digits, isDecimalDigit c = true) (u : LengthUnit) (t : Text) :
    (digits ++ (u.text ++ t)).takeWhile isDecimalDigit = digits ∧
      (digits ++ (u.text ++ t)).dropWhile isDecimalDigit = u.text ++ t := by
  obtain ⟨c, name, hu, hc, -⟩ := u.exists_text
  rw [List.takeWhile_append_of_pos h, List.dropWhile_append_of_pos h, hu]
  simp [hc]

/-- Digits and a unit are read as a whole number. -/
theorem readUnsigned?_whole (hne : digits ≠ []) (h : ∀ c ∈ digits, isDecimalDigit c = true)
    (u : LengthUnit) (t : Text) :
    readUnsigned? negative (digits ++ (u.text ++ t)) = some ⟨negative, digits, [], u⟩ := by
  obtain ⟨c, name, hu, -, hpoint⟩ := u.exists_text
  have hread := u.read?_text t
  obtain ⟨htake, hdrop⟩ := takeWhile_digits h u t
  rw [readUnsigned?]
  dsimp only
  rw [htake, hdrop]
  rw [hu] at hread ⊢
  split
  · next heq => exact absurd (List.cons.inj heq).1 hpoint
  · rw [if_neg (by simpa using hne), hread]
    rfl

/-- Digits, a point, at least one digit and a unit are read as a number with a fraction. -/
theorem readUnsigned?_point (hwhole : ∀ c ∈ whole, isDecimalDigit c = true) (hne : fraction ≠ [])
    (hfraction : ∀ c ∈ fraction, isDecimalDigit c = true) (u : LengthUnit) (t : Text) :
    readUnsigned? negative (whole ++ '.' :: (fraction ++ (u.text ++ t)))
      = some ⟨negative, whole, fraction, u⟩ := by
  obtain ⟨htake, hdrop⟩ := takeWhile_digits hfraction u t
  have hpoint : isDecimalDigit '.' = false := by decide
  rw [readUnsigned?]
  dsimp only
  rw [List.takeWhile_append_of_pos hwhole, List.dropWhile_append_of_pos hwhole,
    List.takeWhile_cons_of_neg (by simp [hpoint]), List.dropWhile_cons_of_neg (by simp [hpoint]),
    List.append_nil]
  simp only [htake, hdrop, List.isEmpty_iff, if_neg hne, u.read?_text, Option.map_some]

/-- No length without its sign begins with a minus sign. -/
theorem readUnsigned?_minus (t : Text) : readUnsigned? negative ('-' :: t) = none := rfl

theorem read?_of_unsigned (h : readUnsigned? false t = some l) : read? t = some l := by
  unfold read?
  split
  · rw [readUnsigned?_minus] at h
    contradiction
  · exact h

/-- **What looks like a length is read as that length.** -/
theorem read?_text (s : Spelling) (t : Text) : read? (s.text ++ t) = some s.length := by
  obtain ⟨sign, whole, point, fraction, u, hsign, hwhole, hpoint, hne, hfraction⟩ := s
  have hdigit : ∀ c ∈ whole ++ fraction, isDecimalDigit c = true := fun c hc =>
    (List.mem_append.1 hc).elim (hwhole c) (hfraction c)
  have hunsigned : ∀ negative,
      readUnsigned? negative (whole ++ (point ++ (fraction ++ (u.text ++ t))))
        = some (if point = [] then ⟨negative, whole ++ fraction, [], u⟩
            else ⟨negative, whole, fraction, u⟩) := by
    intro negative
    rcases hpoint with rfl | rfl
    · simpa using readUnsigned?_whole (by simp [hne]) hdigit u t
    · simpa using readUnsigned?_point hwhole hne hfraction u t
  simp only [Spelling.text, Spelling.number, Spelling.length, List.append_assoc]
  rcases hsign with rfl | rfl
  · exact read?_of_unsigned (hunsigned false)
  · exact hunsigned true

/-- A length without its sign that is read looks like one, whatever its sign. -/
theorem exists_of_readUnsigned? {sign : Text} (hsign : sign = [] ∨ sign = ['-'])
    (h : readUnsigned? (sign == ['-']) t = some l) :
    ∃ (s : Spelling) (rest : Text), sign ++ t = s.text ++ rest ∧ s.length = l := by
  have hall : ∀ t : Text, ∀ c ∈ t.takeWhile isDecimalDigit, isDecimalDigit c = true :=
    fun t => List.all_eq_true.1 List.all_takeWhile
  have ht := List.takeWhile_append_dropWhile (p := isDecimalDigit) (l := t)
  unfold readUnsigned? at h
  dsimp only at h
  split at h
  · next rest hpoint =>
    split_ifs at h with hempty
    obtain ⟨u, hu, rfl⟩ := Option.map_eq_some_iff.1 h
    obtain ⟨after, hafter⟩ := LengthUnit.exists_of_read? hu
    refine ⟨⟨sign, t.takeWhile isDecimalDigit, ['.'], rest.takeWhile isDecimalDigit, u, hsign,
      hall t, .inr rfl, by simpa using hempty, hall rest⟩, after, ?_, rfl⟩
    have hrest := List.takeWhile_append_dropWhile (p := isDecimalDigit) (l := rest)
    rw [hafter] at hrest
    rw [hpoint, ← hrest] at ht
    simpa [Spelling.text, Spelling.number] using ht.symm
  · next rest hpoint =>
    split_ifs at h with hempty
    obtain ⟨u, hu, rfl⟩ := Option.map_eq_some_iff.1 h
    obtain ⟨after, hafter⟩ := LengthUnit.exists_of_read? hu
    refine ⟨⟨sign, [], [], t.takeWhile isDecimalDigit, u, hsign,
      by simp, .inl rfl, by simpa using hempty, hall t⟩, after, ?_, rfl⟩
    rw [hafter] at ht
    simpa [Spelling.text, Spelling.number] using ht.symm

/-- **What is read looks like a length.** -/
theorem exists_of_read? (h : read? t = some l) :
    ∃ (s : Spelling) (rest : Text), t = s.text ++ rest ∧ s.length = l := by
  unfold read? at h
  split at h
  · exact exists_of_readUnsigned? (.inr rfl) h
  · exact exists_of_readUnsigned? (.inl rfl) h

/-- A length that was read, as it was written. -/
def text (l : Length) : Text :=
  (if l.negative then ['-'] else []) ++ l.whole
    ++ (if l.fraction = [] then [] else '.' :: l.fraction) ++ l.unit.text

namespace Spelling

variable {s s' : Spelling} {i j : Nat}

/-- What is read is all that was written. -/
theorem text_length (s : Spelling) : s.length.text = s.text := by
  obtain ⟨sign, whole, point, fraction, u, hsign, -, hpoint, hne, -⟩ := s
  unfold Spelling.length Length.text Spelling.text number
  rcases hsign with rfl | rfl
  all_goals
    rcases hpoint with rfl | rfl
    · simp
    · simp [hne]

/-! ### Where a length begins -/

theorem text_ne_nil (s : Spelling) : s.text ≠ [] := by
  simp [Spelling.text, number, s.fraction_ne]

theorem at_zero_iff : s.At t 0 ↔ ∃ after, t = s.text ++ after := by
  simp [At]

theorem at_succ_iff {c : Char} : s.At (c :: t) (i + 1) ↔ s.At t i := by
  constructor
  · rintro ⟨_ | ⟨d, before⟩, after, hlen, ht⟩
    · contradiction
    · exact ⟨before, after, Nat.succ.inj hlen, (List.cons.inj ht).2⟩
  · rintro ⟨before, after, hlen, ht⟩
    exact ⟨c :: before, after, congrArg Nat.succ hlen, congrArg (c :: ·) ht⟩

theorem not_at_nil : ¬ s.At [] i := by
  rintro ⟨before, after, -, h⟩
  simp [s.text_ne_nil] at h

theorem read?_of_at_zero (h : s.At t 0) : read? t = some s.length := by
  obtain ⟨after, rfl⟩ := at_zero_iff.1 h
  exact read?_text s after

end Spelling

/-- **Nothing is found** where no length occurs. -/
theorem not_at_of_find? (h : find? t = none) (s : Spelling) (i : Nat) : ¬ s.At t i := by
  induction t generalizing i with
  | nil => exact Spelling.not_at_nil
  | cons c t ih =>
    unfold find? at h
    split at h
    · contradiction
    · next hread =>
      intro hat
      cases i with
      | zero => rw [Spelling.read?_of_at_zero hat] at hread; contradiction
      | succ i => exact ih h i (Spelling.at_succ_iff.1 hat)

/-- **What is found is the leftmost length**, and the one that occurs there. -/
theorem find?_leftmost (h : find? t = some l) : ∃ i, (∃ s : Spelling, s.At t i) ∧
    ∀ (s : Spelling) (j : Nat), s.At t j → i ≤ j ∧ (j = i → s.length = l) := by
  induction t with
  | nil => contradiction
  | cons c t ih =>
    unfold find? at h
    split at h
    · next l' hread =>
      obtain rfl := Option.some.inj h
      obtain ⟨s, rest, ht, -⟩ := exists_of_read? hread
      refine ⟨0, ⟨s, Spelling.at_zero_iff.2 ⟨rest, ht⟩⟩, fun s' j hat => ⟨Nat.zero_le j, ?_⟩⟩
      rintro rfl
      exact Option.some.inj ((Spelling.read?_of_at_zero hat).symm.trans hread)
    · next hread =>
      obtain ⟨i, ⟨s, hs⟩, hleft⟩ := ih h
      refine ⟨i + 1, ⟨s, Spelling.at_succ_iff.2 hs⟩, fun s' j hat => ?_⟩
      cases j with
      | zero => rw [Spelling.read?_of_at_zero hat] at hread; contradiction
      | succ j =>
        obtain ⟨hle, heq⟩ := hleft s' j (Spelling.at_succ_iff.1 hat)
        exact ⟨Nat.succ_le_succ hle, fun hj => heq (Nat.succ.inj hj)⟩

/-! ### What a length measures -/

/-- Of the decimal digits, those in ASCII have a value. -/
theorem isDigit_iff {c : Char} (h : isDecimalDigit c = true) :
    c.isDigit = true ↔ c.toNat < 128 := by
  have hrange : c.isDigit = true ↔ 0x30 ≤ c.toNat ∧ c.toNat ≤ 0x39 := by
    simp [Char.isDigit, UInt32.le_iff_toNat_le]
  have hascii : ∀ r ∈ Text.decimalDigitRanges, r.1 < 128 → r = (0x30, 0x39) := by decide
  obtain ⟨r, hr, hfirst, hlast⟩ := Text.Ranges.exists_of_covers h
  rw [hrange]
  constructor
  · omega
  · intro hc
    obtain rfl := hascii r hr (by omega)
    exact ⟨hfirst, hlast⟩

namespace Spelling

variable {s : Spelling}

/-- **The digits of a number have a value** if all of the number is ASCII. -/
theorem all_isDigit_iff (s : Spelling) :
    (s.whole ++ s.fraction).all Char.isDigit = true ↔ ∀ c ∈ s.number, c.toNat < 128 := by
  have hdigit : ∀ c ∈ s.whole ++ s.fraction, (c.isDigit = true ↔ c.toNat < 128) := fun c hc =>
    isDigit_iff ((List.mem_append.1 hc).elim (s.whole_digit c) (s.fraction_digit c))
  rw [List.all_eq_true]
  constructor
  · intro h c hc
    have hsign : c ∈ s.sign → c = '-' := by
      rcases s.sign_or with hs | hs <;> simp [hs]
    have hpoint : c ∈ s.point → c = '.' := by
      rcases s.point_or with hp | hp <;> simp [hp]
    simp only [number, List.mem_append] at hc
    rcases hc with ((hc | hc) | hc) | hc
    · rw [hsign hc]; decide
    · exact (hdigit c (List.mem_append_left _ hc)).1 (h c (List.mem_append_left _ hc))
    · rw [hpoint hc]; decide
    · exact (hdigit c (List.mem_append_right _ hc)).1 (h c (List.mem_append_right _ hc))
  · intro h c hc
    have hmem : c ∈ s.number := by
      simp only [number, List.mem_append] at hc ⊢
      exact hc.elim (fun hc => .inl (.inl (.inr hc))) .inr
    exact (hdigit c hc).2 (h c hmem)

/-- A number has a value if each of its digits has one. -/
theorem number?_length (s : Spelling) : s.length.number? =
    if (s.whole ++ s.fraction).all Char.isDigit then some s.value else none := by
  unfold Spelling.length value number?
  by_cases hpoint : s.point = []
  · simp only [if_pos hpoint, List.all_nil, Bool.and_true, List.append_nil, List.length_nil]
  · simp only [if_neg hpoint, List.all_append]

/-- **What a length measures:** the product of its number and its unit, if all of the number
is ASCII. -/
theorem size_length (s : Spelling) :
    ((∃ c ∈ s.number, 128 ≤ c.toNat) → s.length.size = unbounded) ∧
    ((∀ c ∈ s.number, c.toNat < 128) → s.value.times? s.unit.factor = some s.length.size) := by
  have hunit : s.length.unit = s.unit := by
    unfold Spelling.length
    split_ifs <;> rfl
  constructor
  · rintro ⟨c, hc, hge⟩
    rw [size, number?_length, if_neg fun h => Nat.not_lt_of_ge hge (s.all_isDigit_iff.1 h c hc)]
  · intro h
    rw [size, number?_length, if_pos (s.all_isDigit_iff.2 h), hunit]
    exact s.unit.times?_factor s.value

end Spelling

/-- **The size of a text is that of its leftmost length.** If no length occurs in the text, it
has no bound. Else, one text is all that can begin as a length where the leftmost one does,
and with a character beyond ASCII in its number it has no bound, without one the size is the
product of its number and its unit. -/
theorem pixelSize_leftmost (ht : t ≠ ['0']) :
    ((∀ (s : Spelling) (i : Nat), ¬ s.At t i) ∧ pixelSize t = unbounded) ∨
      ∃ (i : Nat) (u : Text), (∃ s : Spelling, s.text = u ∧ s.At t i) ∧
        ∀ (s : Spelling) (j : Nat), s.At t j → i ≤ j ∧ (j = i → s.text = u ∧
          ((∃ c ∈ s.number, 128 ≤ c.toNat) → pixelSize t = unbounded) ∧
          ((∀ c ∈ s.number, c.toNat < 128) →
            s.value.times? s.unit.factor = some (pixelSize t))) := by
  cases h : find? t with
  | none =>
    refine .inl ⟨not_at_of_find? h, ?_⟩
    rw [pixelSize, if_neg ht, h]
  | some l =>
    have hsize : pixelSize t = l.size := by rw [pixelSize, if_neg ht, h]
    obtain ⟨i, ⟨s, hs⟩, hleft⟩ := find?_leftmost h
    have htext : ∀ s : Spelling, s.At t i → s.text = l.text := fun s hs => by
      rw [← s.text_length, (hleft s i hs).2 rfl]
    refine .inr ⟨i, l.text, ⟨s, htext s hs, hs⟩, fun s j hat => ⟨(hleft s j hat).1, ?_⟩⟩
    rintro rfl
    obtain rfl := (hleft s j hat).2 rfl
    rw [hsize]
    exact ⟨htext s hat, s.size_length⟩

theorem pixelSize_leftmost_points :
    let t := "--1.2.3px 4em".toList
    t ≠ ['0'] ∧
      (((∀ (s : Spelling) (i : Nat), ¬ s.At t i) ∧ pixelSize t = unbounded) ∨
      ∃ (i : Nat) (u : Text), (∃ s : Spelling, s.text = u ∧ s.At t i) ∧
        ∀ (s : Spelling) (j : Nat), s.At t j → i ≤ j ∧ (j = i → s.text = u ∧
          ((∃ c ∈ s.number, 128 ≤ c.toNat) → pixelSize t = unbounded) ∧
          ((∀ c ∈ s.number, c.toNat < 128) →
            s.value.times? s.unit.factor = some (pixelSize t)))) := by
  intro t
  have ht : t ≠ ['0'] := by decide
  exact ⟨ht, pixelSize_leftmost ht⟩

/-- The first one is read from its second digit on; the other one has a digit beyond ASCII. -/
example : pixelSize "--1.2.3px 4em".toList = .ofQuotient false 23 10 ∧
    pixelSize "-1\u0663px 4em".toList = unbounded := by
  decide +kernel

end Length
end MediaGrouping
