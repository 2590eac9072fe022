/-
# Registries

A registry keeps one value per text, in the order in which the texts first
arrived. Updating a known text leaves it in its place. The features of a query
and the merged blocks of a scope are registries.
-/

import MediaGrouping.Text.Basic

namespace MediaGrouping

/-- Values by key, in the order of first arrival. -/
abbrev Registry (α : Type) := List (Text × α)

namespace Registry

variable {α : Type}

/-- The keys, in the order of first arrival. -/
def keys (r : Registry α) : List Text := r.map Prod.fst

/-- The value of a key. -/
def find? : Registry α → Text → Option α
  | [], _ => none
  | (k, v) :: rest, key => if key = k then some v else find? rest key

/-- Whether a key is known. -/
def has (r : Registry α) (key : Text) : Bool := (find? r key).isSome

/-- Sets a key to `f` of its value so far. A new key goes last. -/
def update (key : Text) (f : Option α → α) : Registry α → Registry α
  | [] => [(key, f none)]
  | (k, v) :: rest =>
    if key = k then (k, f (some v)) :: rest else (k, v) :: update key f rest

/-- **An update is seen under its own key and under no other.** -/
theorem find?_update (key : Text) (f : Option α → α) (r : Registry α) (other : Text) :
    find? (update key f r) other =
      if other = key then some (f (find? r key)) else find? r other := by
  induction r with
  | nil => simp [update, find?]
  | cons entry rest ih =>
    obtain ⟨k, v⟩ := entry
    unfold update
    by_cases h : key = k
    · subst h; by_cases ho : other = key <;> simp [find?, ho]
    · simp only [h, if_false, find?, ih]
      by_cases ho : other = k
      · subst ho; simp [Ne.symm h]
      · simp [ho]

/-- **Keys keep their places:** an update adds its key at the end if it is new. -/
theorem keys_update (key : Text) (f : Option α → α) (r : Registry α) :
    keys (update key f r) = if key ∈ keys r then keys r else keys r ++ [key] := by
  induction r with
  | nil => simp [update, keys]
  | cons entry rest ih =>
    obtain ⟨k, v⟩ := entry
    unfold update
    by_cases h : key = k
    · simp [keys, h]
    · simp only [keys, h, if_false, List.map_cons, List.mem_cons, false_or] at ih ⊢
      by_cases hm : key ∈ rest.map Prod.fst <;> simp [ih, hm]

end Registry
end MediaGrouping
