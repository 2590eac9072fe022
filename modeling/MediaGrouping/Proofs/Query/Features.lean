/-
# The features of a query

What the words of an alternative mention is said by the words (`Mention.Told`), and what the
mentions come to by the mentions (`Expression.Collects`): the features are those mentioned, in
the order of their first mention, and of the mentions of one feature the last bare one counts
and the values behind it (`Expression.Settled`). The words tell what the reader takes from
them and nothing else (`Mention.told_iff`), and noting one mention more keeps up what the
mentions come to (`Expression.Collects.note`), so that an alternative is read as what its words
come to.

The words stand between spaces, line feeds and tabs at the top level, and each is read for itself
(`Mention.ofAlternative_append`), with its ASCII letters in lower case
(`Mention.ofAlternative_of_single`). An alternative of a query list is read without the blanks
around it. These make no word (`Mention.ofAlternative_trim`), so a query without a comma at the top
level, blanks and all, is its own only alternative (`Expression.ofQueryList_of_single`).
-/

import MediaGrouping.Proofs.Registry
import MediaGrouping.Proofs.Text.Splitting
import MediaGrouping.Query.Expression
import Mathlib.Data.List.Forall2
import Mathlib.Data.List.Induction

namespace MediaGrouping
namespace Mention

/-- **A bare word**: ASCII letters, digits and `_`. -/
def Bare (word : Text) : Prop :=
  word ≠ [] ∧ ∀ c ∈ word,
    ('A' ≤ c ∧ c ≤ 'Z') ∨ ('a' ≤ c ∧ c ≤ 'z') ∨ ('0' ≤ c ∧ c ≤ '9') ∨ c = '_'

/-- **What is inside a word**: all but an opening parenthesis it begins with, and a closing one
that the rest ends with. -/
def Inside (word inner : Text) : Prop :=
  ∃ opening closing, word = opening ++ (inner ++ closing) ∧
    (opening = ['('] ∨ opening = [] ∧ ∀ rest, word ≠ '(' :: rest) ∧
    (closing = [')'] ∨ closing = [] ∧ ∀ rest, inner ≠ rest ++ [')'])

/-- **What words in lower case mention**, one after the other. -/
inductive Told : List Text → List Mention → Prop
  | nil : Told [] []
  | and {words : List Text} {ms : List Mention} (h : Told words ms) :
      Told (['a', 'n', 'd'] :: words) ms
  | bare {word : Text} {words : List Text} {ms : List Mention} (hne : word ≠ ['a', 'n', 'd'])
      (hbare : Bare word) (h : Told words ms) : Told (word :: words) (.bare word :: ms)
  | valued {word inner feature : Text} {parts words : List Text} {ms : List Mention}
      (hbare : ¬ Bare word) (hinner : Inside word inner)
      (hparts : Text.split [':'] false inner = feature :: parts) (hfeature : feature ≠ [])
      (h : Told words ms) : Told (word :: words) (.valued feature (parts.headD []) :: ms)
  | skipped {word inner : Text} {words : List Text} {ms : List Mention}
      (hbare : ¬ Bare word) (hinner : Inside word inner)
      (hparts : (Text.split [':'] false inner).headD [] = []) (h : Told words ms) :
      Told (word :: words) ms

variable {word inner : Text} {words : List Text} {ms : List Mention}

theorem isWordChar_iff {c : Char} : isWordChar c = true ↔
    ('A' ≤ c ∧ c ≤ 'Z') ∨ ('a' ≤ c ∧ c ≤ 'z') ∨ ('0' ≤ c ∧ c ≤ '9') ∨ c = '_' := by
  have hclass : isWordChar c =
      (decide ('A' ≤ c ∧ c ≤ 'Z') || 'a' ≤ c && c ≤ 'z' || '0' ≤ c && c ≤ '9' || c == '_') := rfl
  simp only [hclass, Bool.or_eq_true, Bool.and_eq_true, decide_eq_true_eq, beq_iff_eq, or_assoc]

theorem bare_iff : (!word.isEmpty && word.all isWordChar) = true ↔ Bare word := by
  simp [Bare, isWordChar_iff]

instance (word : Text) : Decidable (Bare word) := decidable_of_iff _ bare_iff

/-- What a word begins with before its inside. -/
theorem exists_opening (word : Text) :
    ∃ opening, word = opening ++ (Text.dropHead? ['('] word).getD word ∧
      (opening = ['('] ∨ opening = [] ∧ ∀ rest, word ≠ '(' :: rest) := by
  cases h : Text.dropHead? ['('] word with
  | none =>
    refine ⟨[], rfl, .inr ⟨rfl, fun rest hrest => ?_⟩⟩
    have hword : word = ['('] ++ rest := hrest
    rw [hword, Text.dropHead?_append] at h
    contradiction
  | some rest => exact ⟨['('], Text.eq_append_of_dropHead? h, .inl rfl⟩

/-- What a word ends with after its inside. -/
theorem exists_closing (word : Text) :
    ∃ closing, word = (Text.dropTail? [')'] word).getD word ++ closing ∧
      (closing = [')'] ∨
        closing = [] ∧ ∀ rest, (Text.dropTail? [')'] word).getD word ≠ rest ++ [')']) := by
  cases h : Text.dropTail? [')'] word with
  | none =>
    refine ⟨[], (List.append_nil word).symm, .inr ⟨rfl, fun rest hrest => ?_⟩⟩
    have hword : word = rest ++ [')'] := hrest
    rw [hword, Text.dropTail?_append] at h
    contradiction
  | some rest => exact ⟨[')'], Text.eq_append_of_dropTail? h, .inl rfl⟩

/-- **The inside of a word** is what is left when its parentheses are taken off. -/
theorem inside_iff : Inside word inner ↔ inner = unwrap word := by
  constructor
  · rintro ⟨opening, closing, hword, hopening, hclosing⟩
    have hopened : (Text.dropHead? ['('] word).getD word = inner ++ closing := by
      rcases hopening with rfl | ⟨rfl, hopening⟩
      · rw [hword, Text.dropHead?_append]
        rfl
      · cases hdrop : Text.dropHead? ['('] word with
        | none => exact hword
        | some rest => exact absurd (Text.eq_append_of_dropHead? hdrop) (hopening rest)
    rw [unwrap, hopened]
    rcases hclosing with rfl | ⟨rfl, hclosing⟩
    · rw [Text.dropTail?_append]
      rfl
    · rw [List.append_nil]
      cases hdrop : Text.dropTail? [')'] inner with
      | none => rfl
      | some rest => exact absurd (Text.eq_append_of_dropTail? hdrop) (hclosing rest)
  · rintro rfl
    obtain ⟨opening, hword, hopening⟩ := exists_opening word
    obtain ⟨closing, hrest, hclosing⟩ := exists_closing ((Text.dropHead? ['('] word).getD word)
    exact ⟨opening, closing, hword.trans (congrArg (opening ++ ·) hrest), hopening, hclosing⟩

/-! ### What words mention -/

theorem ofWord?_of_bare (h : Bare word) : ofWord? word = some (.bare word) := if_pos (bare_iff.2 h)

theorem ofWord?_of_not_bare (h : ¬ Bare word) (hinner : Inside word inner) : ofWord? word =
    match Text.split [':'] false inner with
    | [] => none
    | feature :: parts =>
      if feature.isEmpty then none else some (.valued feature (parts.headD [])) := by
  rw [inside_iff.1 hinner]
  exact if_neg fun hb => h (bare_iff.1 hb)

theorem ofWord?_of_feature {feature : Text} {parts : List Text} (h : ¬ Bare word)
    (hinner : Inside word inner) (hparts : Text.split [':'] false inner = feature :: parts)
    (hfeature : feature ≠ []) : ofWord? word = some (.valued feature (parts.headD [])) := by
  rw [ofWord?_of_not_bare h hinner, hparts]
  exact if_neg (by simpa using hfeature)

theorem ofWord?_of_no_feature (h : ¬ Bare word) (hinner : Inside word inner)
    (hparts : (Text.split [':'] false inner).headD [] = []) : ofWord? word = none := by
  rw [ofWord?_of_not_bare h hinner]
  split
  · rfl
  · next hsplit =>
    rw [hsplit, List.headD_cons] at hparts
    exact if_pos (List.isEmpty_iff.2 hparts)

/-- The mentions of words, one after the other; the word `and` only joins them. -/
def mentions (words : List Text) : List Mention :=
  (words.filter (· != ['a', 'n', 'd'])).filterMap ofWord?

theorem mentions_and (words : List Text) : mentions (['a', 'n', 'd'] :: words) = mentions words :=
  rfl

theorem mentions_cons (hne : word ≠ ['a', 'n', 'd']) (words : List Text) :
    mentions (word :: words) = (ofWord? word).toList ++ mentions words := by
  rw [mentions, List.filter_cons_of_pos (by simpa using hne), List.filterMap_cons]
  cases ofWord? word <;> rfl

theorem ne_and_of_not_bare (h : ¬ Bare word) : word ≠ ['a', 'n', 'd'] := fun hword =>
  h (hword ▸ by decide)

/-- **What words tell is read from them.** -/
theorem Told.eq_mentions (h : Told words ms) : ms = mentions words := by
  induction h with
  | nil => rfl
  | and _ ih => rw [mentions_and, ih]
  | bare hne hbare _ ih =>
    rw [mentions_cons hne, ofWord?_of_bare hbare, ← ih]
    rfl
  | valued hbare hinner hparts hfeature _ ih =>
    rw [mentions_cons (ne_and_of_not_bare hbare),
      ofWord?_of_feature hbare hinner hparts hfeature, ← ih]
    rfl
  | skipped hbare hinner hparts _ ih =>
    rw [mentions_cons (ne_and_of_not_bare hbare), ofWord?_of_no_feature hbare hinner hparts, ← ih]
    rfl

/-- **What is read from words they tell.** -/
theorem told_mentions (words : List Text) : Told words (mentions words) := by
  induction words with
  | nil => exact .nil
  | cons word words ih =>
    by_cases hand : word = ['a', 'n', 'd']
    · rw [hand]
      exact ih.and
    rw [mentions_cons hand]
    by_cases hbare : Bare word
    · rw [ofWord?_of_bare hbare]
      exact ih.bare hand hbare
    have hinner : Inside word (unwrap word) := inside_iff.2 rfl
    by_cases hfeature : (Text.split [':'] false (unwrap word)).headD [] = []
    · rw [ofWord?_of_no_feature hbare hinner hfeature]
      exact ih.skipped hbare hinner hfeature
    · cases hparts : Text.split [':'] false (unwrap word) with
      | nil => exact absurd (by rw [hparts]; rfl) hfeature
      | cons feature parts =>
        rw [hparts, List.headD_cons] at hfeature
        rw [ofWord?_of_feature hbare hinner hparts hfeature]
        exact ih.valued hbare hinner hparts hfeature

theorem told_iff : Told words ms ↔ ms = mentions words :=
  ⟨Told.eq_mentions, fun h => h ▸ told_mentions words⟩

/-- Words of no characters mention nothing. -/
theorem mentions_lowercase_filter (words : List Text) :
    mentions ((words.filter (· ≠ [])).map Text.lowercase)
      = mentions (words.map Text.lowercase) := by
  induction words with
  | nil => rfl
  | cons word words ih =>
    by_cases hword : word = []
    · rw [hword]
      exact ih
    · rw [List.filter_cons_of_pos (by simpa using hword), List.map_cons, List.map_cons]
      by_cases hand : Text.lowercase word = ['a', 'n', 'd']
      · rw [hand, mentions_and, mentions_and, ih]
      · rw [mentions_cons hand, mentions_cons hand, ih]

/-! ### What alternatives mention -/

/-- An alternative mentions what its words do, in lower case. -/
theorem ofAlternative_eq (t : Text) :
    ofAlternative t = mentions ((Text.spaceItems t).map Text.lowercase) :=
  rfl

theorem mentions_append (words others : List Text) :
    mentions (words ++ others) = mentions words ++ mentions others := by
  rw [mentions, List.filter_append, List.filterMap_append, mentions, mentions]

/-- **An alternative is read word by word**: what stands on either side of a space, a line feed or
a tab at the top level is read for itself. -/
theorem ofAlternative_append {u : Text} {c : Char} (hu : Text.Outside u 0)
    (hc : c = ' ' ∨ c = '\n' ∨ c = '\t') (t : Text) :
    ofAlternative (u ++ c :: t) = ofAlternative u ++ ofAlternative t := by
  rw [ofAlternative_eq, Text.spaceItems_append hu hc, List.map_append, mentions_append]
  rfl

/-- **An alternative of one word**, in ASCII characters, mentions what the word does with the
letters `A` to `Z` in lower case. -/
theorem ofAlternative_of_single {t : Text} (h : Text.Single [' ', '\n', '\t'] t)
    (hascii : ∀ c ∈ t, c.toNat < 128) :
    ofAlternative t = mentions [(Text.trim t).map Char.toLower] := by
  have hlower : Text.lowercase (Text.trim t) = (Text.trim t).map Char.toLower :=
    Text.lowercase_of_ascii fun c hc => hascii c (Text.mem_of_mem_trim hc)
  rw [ofAlternative_eq, Text.spaceItems_of_single h, ← hlower]
  split_ifs with hnil
  · rw [hnil]
    rfl
  · rfl

/-- **Blanks around an alternative** change nothing about its mentions. -/
theorem ofAlternative_trim (t : Text) : ofAlternative (Text.trim t) = ofAlternative t := by
  rw [ofAlternative_eq, ofAlternative_eq, ← mentions_lowercase_filter, Text.spaceItems,
    Text.filter_split_trim, mentions_lowercase_filter]
  rfl

end Mention

namespace Expression

/-- **What the mentions of one feature come to**, in their order: a flag, if the last one is bare,
and otherwise the values since the last bare one. -/
inductive Settled (f : Text) : List Mention → Feature → Prop
  | flag (early : List Mention) : Settled f (early ++ [.bare f]) .flag
  | values (early : List Mention) (vs : List Text)
      (hearly : early = [] ∨ ∃ before, early = before ++ [.bare f]) (hvs : vs ≠ []) :
      Settled f (early ++ vs.map (.valued f)) (.values vs)

/-- **An expression has what mentions come to**: the features mentioned, in the order of their
first mention, each with what its mentions come to. -/
structure Collects (ms : List Mention) (e : Expression) : Prop where
  keys : Registry.keys e = (ms.map Mention.feature).eraseDups
  found : ∀ f ∈ Registry.keys e, ∃ feature, Registry.find? e f = some feature ∧
    Settled f (ms.filter (·.feature = f)) feature

variable {f : Text} {ms : List Mention} {m : Mention} {e : Expression}

/-- **One mention more** revises what the ones before come to. -/
theorem Settled.concat {known : Option Feature} (hm : m.feature = f)
    (hsome : ∀ feature, known = some feature → Settled f ms feature)
    (hnone : known = none → ms = []) : Settled f (ms ++ [m]) (m.revise known) := by
  cases m with
  | bare g =>
    obtain rfl : g = f := hm
    exact .flag ms
  | valued g value =>
    obtain rfl : g = f := hm
    cases known with
    | none =>
      rw [hnone rfl]
      exact .values [] [value] (.inl rfl) (List.cons_ne_nil _ _)
    | some feature =>
      cases hsome feature rfl with
      | flag early =>
        exact .values (early ++ [.bare g]) [value] (.inr ⟨early, rfl⟩) (List.cons_ne_nil _ _)
      | values early vs hearly hvs =>
        have h := Settled.values (f := g) early (vs ++ [value]) hearly (by simp)
        rw [List.map_append, ← List.append_assoc] at h
        exact h

theorem Collects.settled {feature : Feature} (h : Collects ms e)
    (hf : Registry.find? e f = some feature) :
    Settled f (ms.filter (·.feature = f)) feature := by
  obtain ⟨x, hx, hsettled⟩ :=
    h.found f (List.mem_map_of_mem (f := Prod.fst) (Registry.mem_of_find? hf))
  obtain rfl := Option.some.inj (hx.symm.trans hf)
  exact hsettled

theorem Collects.filter_eq_nil (h : Collects ms e) (hf : Registry.find? e f = none) :
    ms.filter (·.feature = f) = [] := by
  rw [List.filter_eq_nil_iff]
  intro m hm hmf
  have hkey : f ∈ Registry.keys e := by
    rw [h.keys, List.mem_eraseDups, ← of_decide_eq_true hmf]
    exact List.mem_map_of_mem hm
  obtain ⟨x, hx, -⟩ := h.found f hkey
  rw [hf] at hx
  contradiction

/-- **Noting a mention** keeps this up. -/
theorem Collects.note (h : Collects ms e) (m : Mention) : Collects (ms ++ [m]) (note e m) := by
  have hkeys : Registry.keys (Expression.note e m)
      = ((ms ++ [m]).map Mention.feature).eraseDups := by
    rw [List.map_append, List.map_singleton]
    exact Registry.keys_update_eraseDups m.revise h.keys
  refine ⟨hkeys, fun f hf => ?_⟩
  rw [Expression.note, Registry.find?_update, List.filter_append]
  by_cases hm : m.feature = f
  · subst hm
    rw [if_pos rfl, List.filter_cons_of_pos (by simp), List.filter_nil]
    exact ⟨_, rfl, .concat rfl (fun _ => h.settled) h.filter_eq_nil⟩
  · rw [if_neg (Ne.symm hm), List.filter_cons_of_neg (by simpa using hm), List.filter_nil,
      List.append_nil]
    refine h.found f ?_
    rw [hkeys, List.mem_eraseDups, List.map_append, List.mem_append, List.map_singleton,
      List.mem_singleton] at hf
    rw [h.keys, List.mem_eraseDups]
    exact hf.resolve_right (Ne.symm hm)

theorem collects_foldl (ms : List Mention) : Collects ms (ms.foldl note []) := by
  induction ms using List.reverseRecOn with
  | nil => exact ⟨rfl, List.forall_mem_nil _⟩
  | append_singleton ms m ih =>
    rw [List.foldl_append]
    exact ih.note m

/-- **What an alternative is read as**: what the mentions come to that its words tell, and these
are one list. -/
def Reads (t : Text) (e : Expression) : Prop :=
  ∃ ms, (∀ told, Mention.Told ((Text.spaceItems t).map Text.lowercase) told ↔ told = ms) ∧
    Collects ms e

theorem reads_ofAlternative (t : Text) : Reads t (ofAlternative t) :=
  ⟨Mention.ofAlternative t, fun _ => Mention.told_iff, collects_foldl _⟩

theorem ofQueryList_of_single {t : Text} (h : Text.Single [','] t) :
    ofQueryList t = [ofAlternative t] := by
  rw [ofQueryList, Text.commaItems, (Text.split_of_passes (Text.single_iff.1 h)).1,
    List.map_singleton, ofAlternative, Mention.ofAlternative_trim, ofAlternative]

/-- **A query list is read alternative by alternative.** A text without a comma at the top level
is one alternative, and what it is read as is what its words come to. Every other text is read as
the alternatives that its items are, each of them without such a comma. -/
theorem reads_ofQueryList (t : Text) :
    (Text.Single [','] t → ∃ e, ofQueryList t = [e] ∧ Reads t e) ∧
    List.Forall₂ (fun item e => Text.Single [','] item ∧ ofQueryList item = [e] ∧ Reads item e)
      (Text.commaItems t) (ofQueryList t) := by
  refine ⟨fun h => ⟨_, ofQueryList_of_single h, reads_ofAlternative t⟩, ?_⟩
  rw [ofQueryList, List.forall₂_map_right_iff, List.forall₂_same]
  intro item hitem
  have hsingle := Text.single_of_mem_split hitem
  exact ⟨hsingle, ofQueryList_of_single hsingle, reads_ofAlternative item⟩

/-- The bare `width` in the middle forgets the value before it. A part of no characters is none. -/
theorem reads_ofQueryList_repeated :
    let t := " only (Width: 1px) and width and (width:calc(2px,3px)) (:4px) only (WIDTH".toList
    let e : Expression := [("only".toList, .flag),
      ("width".toList, .values ["calc(2px,3px)".toList, []]), ("4px".toList, .values [[]])]
    Text.Single [','] t ∧ (ofQueryList t = [e] ∧ Reads t e) ∧ List.Forall₂
      (fun item e => Text.Single [','] item ∧ ofQueryList item = [e] ∧ Reads item e)
      (Text.commaItems t) [e] := by
  intro t e
  have ht : Text.Single [','] t := by decide +kernel
  have he : ofQueryList t = [e] := by decide +kernel
  obtain ⟨e', he', hreads⟩ := (reads_ofQueryList t).1 ht
  obtain rfl : e' = e := List.singleton_inj.1 (he'.symm.trans he)
  have hitems := (reads_ofQueryList t).2
  rw [he] at hitems
  exact ⟨ht, ⟨he, hreads⟩, hitems⟩

end Expression
end MediaGrouping
