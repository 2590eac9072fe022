/-
# What segments are read from

A segment is read from a text that is made of its parts (`Segment.Spelled`): a name and parameters,
a selector, a property and a value on either side of the first colon, or what stands between the
marks of a comment. A scan passes over what extends to a stop, and it is at the start before a brace
that opens a block. Whatever is read is read from such a text (`Segment.spelled_of_read`), so that
what reading guarantees of a segment is shown for each of these texts, without the reader.
-/

import MediaGrouping.Proofs.Sheet.Prelude

namespace MediaGrouping
namespace Segment

open Text.Scan (Closed Passes start)

variable {s : Segment} {t u p raw rest taken : Text} {c : Char} {d : Declaration}

/-! ### Headers and declarations -/

/-- **A plain text** begins neither like an at-rule nor like a comment. -/
structure Plain (t : Text) : Prop where
  at_sign : ¬ ['@'] <+: t
  comment_mark : ¬ ['/', '*'] <+: t

instance (t : Text) : Decidable (Plain t) :=
  decidable_of_iff (¬ ['@'] <+: t ∧ ¬ ['/', '*'] <+: t) ⟨fun h => ⟨h.1, h.2⟩, fun h => ⟨h.1, h.2⟩⟩

namespace Plain

/-- What a plain text begins with is plain. -/
theorem of_isPrefix (h : Plain t) (hu : u <+: t) : Plain u :=
  ⟨fun ha => h.at_sign (ha.trans hu), fun hc => h.comment_mark (hc.trans hu)⟩

/-- A plain text stays plain before any other text whose first character is neither
`@` nor part of a comment mark. -/
theorem append (h : Plain t) (hc : c ∉ ['@', '/', '*']) (u : Text) : Plain (t ++ c :: u) := by
  simp only [List.mem_cons, List.not_mem_nil, or_false, not_or] at hc
  obtain ⟨ha, hm⟩ := h
  match t with
  | [] => exact ⟨by simp [List.cons_prefix_cons, Ne.symm hc.1],
      by simp [List.cons_prefix_cons, Ne.symm hc.2.1]⟩
  | [x] =>
    refine ⟨by simpa [List.cons_prefix_cons] using ha, ?_⟩
    simp [List.cons_prefix_cons, Ne.symm hc.2.2]
  | x :: y :: rest =>
    exact ⟨by simpa [List.cons_prefix_cons] using ha, by simpa [List.cons_prefix_cons] using hm⟩

end Plain

/-- A plain text that closes no block is a header or a declaration. -/
theorem read_of_plain (h : Plain t) (hc : t.head? ≠ some '}') : Segment.read t = readPlain t := by
  unfold Segment.read
  split
  · exact absurd rfl hc
  · exact absurd ⟨_, rfl⟩ h.at_sign
  · exact absurd ⟨_, rfl⟩ h.comment_mark
  · rfl

/-- What a scan passes over does not begin with a stop. -/
theorem not_stop_of_passes (h : Passes stops start (c :: t)) : c ∉ stops := by
  have hnone : ∀ d ∈ stops, Text.Scan.isControl d = false := by
    simp [stops, Text.Scan.isControl]
  intro hm
  have hstop : start.stopsAt stops c = true := Text.Scan.stopsAt_iff.2 ⟨rfl, hnone c hm, hm⟩
  rw [(Text.Scan.passes_cons.1 h).1] at hstop
  cases hstop

/-- **The first colon ends the property.** -/
theorem declaration?_append (hp : ':' ∉ p) (rest : Text) :
    declaration? (p ++ ':' :: rest) = some ⟨Text.trim p, (splitImportant (Text.trim rest)).1,
      (splitImportant (Text.trim rest)).2⟩ := by
  have hne : ∀ c ∈ p, (c != ':') = true := fun c hc =>
    bne_iff_ne.2 fun he => hp (he ▸ hc)
  have hdrop : (p ++ ':' :: rest).dropWhile (· != ':') = ':' :: rest := by
    rw [List.dropWhile_append_of_pos hne, List.dropWhile_cons_of_neg (by simp)]
  have htake : (p ++ ':' :: rest).takeWhile (· != ':') = p := by
    rw [List.takeWhile_append_of_pos hne, List.takeWhile_cons_of_neg (by simp), List.append_nil]
  rw [declaration?, hdrop, htake]

/-- Only a text with a colon is a declaration. -/
theorem exists_colon_of_declaration? (h : declaration? t = some d) :
    ∃ p rest, ':' ∉ p ∧ t = p ++ ':' :: rest := by
  by_cases hm : ':' ∈ t
  · obtain ⟨p, rest, rfl, hp⟩ := List.eq_append_cons_of_mem hm
    exact ⟨p, rest, hp, rfl⟩
  · have hnil : t.dropWhile (· != ':') = [] :=
      List.dropWhile_eq_nil_iff.2 fun c hc => bne_iff_ne.2 fun he => hm (he ▸ hc)
    rw [declaration?, hnil] at h
    cases h

/-! ### Comments -/

theorem commentBody?_eq (h : commentBody? t = some raw) :
    ∃ left, t = raw ++ '*' :: '/' :: left := by
  induction t generalizing raw with
  | nil => cases h
  | cons c t ih =>
    rw [commentBody?.eq_def] at h
    split at h
    · cases h
    · next left he =>
      cases h
      exact ⟨left, he⟩
    · next d rest _ he =>
      obtain ⟨rfl, rfl⟩ := List.cons.inj he
      obtain ⟨body, hbody, rfl⟩ := Option.map_eq_some_iff.1 h
      obtain ⟨left, hleft⟩ := ih hbody
      exact ⟨left, by rw [hleft, List.cons_append]⟩

/-- The body of a comment holds no end of a comment. -/
theorem not_infix_of_commentBody? (h : commentBody? t = some raw) : ¬ ['*', '/'] <:+: raw := by
  induction t generalizing raw with
  | nil => cases h
  | cons c t ih =>
    rw [commentBody?.eq_def] at h
    split at h
    · cases h
    · cases h
      simp
    · next d rest hno he =>
      obtain ⟨rfl, rfl⟩ := List.cons.inj he
      obtain ⟨body, hbody, rfl⟩ := Option.map_eq_some_iff.1 h
      obtain ⟨left, rfl⟩ := commentBody?_eq hbody
      rw [List.infix_cons_iff, not_or]
      refine ⟨fun hp => ?_, ih hbody⟩
      -- an end of a comment at its very beginning would have ended it there
      obtain ⟨rfl, hslash⟩ := List.cons_prefix_cons.1 hp
      cases body with
      | nil => exact absurd (List.prefix_nil.1 hslash) (List.cons_ne_nil _ _)
      | cons x body =>
        obtain ⟨rfl, -⟩ := List.cons_prefix_cons.1 hslash
        exact hno _ rfl rfl

/-! ### Segments -/

/-- **The texts that a segment is read from.** -/
inductive Spelled : Segment → Text → Prop where
  | closing : Spelled .closing ['}']
  | block {name params : Text} (hname : ∀ c ∈ name, isNameChar c = true)
    (hclosed : Closed stops params) :
    Spelled (.opening (.atRule ⟨name, Text.trim params, true⟩)) ('@' :: name ++ params ++ ['{'])
  | statement {name params : Text} (hname : ∀ c ∈ name, isNameChar c = true)
    (hpasses : Passes stops start params) :
    Spelled (.single (.atRule ⟨name, Text.trim params, false⟩)) ('@' :: name ++ params)
  | rule {text : Text} (hplain : Plain text) (hclosed : Closed stops text) :
    Spelled (.opening (.rule (Text.trim text))) (text ++ ['{'])
  | declaration {p rest : Text} (hcolon : ':' ∉ p) (hplain : Plain (p ++ ':' :: rest))
    (hpasses : Passes stops start (p ++ ':' :: rest)) :
    Spelled (.single (.declaration ⟨Text.trim p, (splitImportant (Text.trim rest)).1,
      (splitImportant (Text.trim rest)).2⟩)) (p ++ ':' :: rest)
  | comment {raw : Text} (hraw : ¬ ['*', '/'] <:+: raw) :
    Spelled (.single (.comment (.ofRaw raw))) ('/' :: '*' :: raw ++ ['*', '/'])

theorem Spelled.ne_nil (h : s.Spelled taken) : taken ≠ [] := by
  cases h with
  | closing => exact List.cons_ne_nil _ _
  | block => simp
  | statement => exact List.cons_ne_nil _ _
  | rule => simp
  | declaration => simp
  | comment => exact List.cons_ne_nil _ _

theorem spelled_readAtRule (t : Text) :
    (readAtRule t).1.Spelled (readAtRule t).2 ∧ (readAtRule t).2 <+: '@' :: t := by
  have hname : ∀ c ∈ t.takeWhile isNameChar, isNameChar c = true := fun _ => List.mem_takeWhile_imp
  have hspan := Text.Scan.span_append stops start (t.dropWhile isNameChar)
  have hpasses := Text.Scan.passes_span stops start (t.dropWhile isNameChar)
  rw [readAtRule, prelude_eq_span]
  split
  next params left he =>
    rw [he] at hspan hpasses
    have ht : '@' :: t.takeWhile isNameChar ++ params ++ left = '@' :: t := by
      rw [List.append_assoc, hspan, List.cons_append, List.takeWhile_append_dropWhile]
    split
    · next rest =>
      refine ⟨.block hname (Text.Scan.closed_of_span he), rest, ?_⟩
      rw [← ht, List.append_assoc _ ['{']]
      rfl
    · exact ⟨.statement hname hpasses, left, ht⟩

theorem spelled_readPlain (hplain : Plain t) (h : readPlain t = .ok (s, taken)) :
    s.Spelled taken ∧ taken <+: t := by
  have hspan := Text.Scan.span_append stops start t
  have hpasses := Text.Scan.passes_span stops start t
  rw [readPlain, prelude_eq_span] at h
  split at h
  next text left he =>
    rw [he] at hspan hpasses
    have htext : text <+: t := ⟨left, hspan⟩
    split at h
    · next rest =>
      cases h
      refine ⟨.rule (hplain.of_isPrefix htext) (Text.Scan.closed_of_span he), rest, ?_⟩
      rw [← hspan, List.append_assoc]
      rfl
    · split at h
      · next d hd =>
        cases h
        obtain ⟨p, rest, hcolon, rfl⟩ := exists_colon_of_declaration? hd
        obtain rfl := Option.some.inj ((declaration?_append hcolon rest).symm.trans hd)
        exact ⟨.declaration hcolon (hplain.of_isPrefix htext) hpasses, htext⟩
      · cases h

/-- **Whatever is read is read from a text made of its parts**, with which the text begins. -/
theorem spelled_of_read (h : Segment.read t = .ok (s, taken)) : s.Spelled taken ∧ taken <+: t := by
  unfold Segment.read at h
  split at h
  · next left =>
    cases h
    exact ⟨.closing, left, rfl⟩
  · next rest =>
    have hr : readAtRule rest = (s, taken) := Except.ok.inj h
    have hspelled := spelled_readAtRule rest
    rwa [hr] at hspelled
  · next rest =>
    split at h
    · next raw hraw =>
      cases h
      obtain ⟨left, rfl⟩ := commentBody?_eq hraw
      exact ⟨.comment (not_infix_of_commentBody? hraw), left, by simp⟩
    · cases h
  · next hat hmark =>
    refine spelled_readPlain ⟨fun hp => ?_, fun hp => ?_⟩ h
    · obtain ⟨rest, he⟩ := hp
      exact hat rest he.symm
    · obtain ⟨rest, he⟩ := hp
      exact hmark rest he.symm

/-- **A segment takes up the beginning of a text**, and some of it. -/
theorem read_taken (h : Segment.read t = .ok (s, taken)) :
    taken ≠ [] ∧ ∃ left, t = taken ++ left := by
  obtain ⟨hspelled, left, ht⟩ := spelled_of_read h
  exact ⟨hspelled.ne_nil, left, ht.symm⟩

/-- **A segment is read from a text that does not begin with a gap**, if none is where it is
read. -/
theorem forall_head_of_read (hc : Lexeme.isGap c = false)
    (h : Segment.read (c :: t) = .ok (s, taken)) : ∀ d ∈ taken.head?, Lexeme.isGap d = false :=
  Text.forall_head_of_isPrefix (spelled_of_read h).2 fun _ hd => Option.some.inj hd ▸ hc

end Segment
end MediaGrouping
