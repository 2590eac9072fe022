/-
# Texts

A text is the list of its characters. Everything the library reads and writes,
selectors, names, values and whole sheets alike, is a text, so that reading is
recursion on a list. The two functions here take a known text off either end.
-/

namespace MediaGrouping

/-- A text, character by character. -/
abbrev Text := List Char

namespace Text

/-- What follows `head` in a text that begins with it. -/
def dropHead? : Text → Text → Option Text
  | [], t => some t
  | _ :: _, [] => none
  | c :: head, d :: t => if c = d then dropHead? head t else none

/-- What precedes `tail` in a text that ends with it. -/
def dropTail? (tail t : Text) : Option Text :=
  (dropHead? tail.reverse t.reverse).map List.reverse

theorem dropHead?_append (head t : Text) : dropHead? head (head ++ t) = some t := by
  induction head with
  | nil => rfl
  | cons c head ih => simpa [dropHead?] using ih

theorem eq_append_of_dropHead? {head t rest : Text} (h : dropHead? head t = some rest) :
    t = head ++ rest := by
  induction head generalizing t with
  | nil => simpa [dropHead?] using h
  | cons c head ih =>
    cases t with
    | nil => simp [dropHead?] at h
    | cons d t =>
      unfold dropHead? at h
      split at h
      · next hc => rw [hc, ih h]; rfl
      · simp at h

theorem dropTail?_append (t tail : Text) : dropTail? tail (t ++ tail) = some t := by
  simp [dropTail?, dropHead?_append]

theorem eq_append_of_dropTail? {tail t rest : Text} (h : dropTail? tail t = some rest) :
    t = rest ++ tail := by
  obtain ⟨u, hu, rfl⟩ := Option.map_eq_some_iff.1 h
  have := congrArg List.reverse (eq_append_of_dropHead? hu)
  simpa using this

end Text
end MediaGrouping
