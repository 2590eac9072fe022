/-
# Updates of registries

An update replaces one value in place, or adds one at the end
(`update_of_find?_some`, `update_of_find?_none`), and so no key is there twice and the keys
are in the order of first arrival (`keys_update_eraseDups`).
Changing every value of a registry by a function commutes with looking up and
with updating.
-/

import MediaGrouping.Registry
import Mathlib.Data.List.Basic
import Mathlib.Tactic.SplitIfs

namespace MediaGrouping
namespace Registry

variable {α β : Type} {key : Text} {r : Registry α}

/-- The registry with every value changed by a function. -/
def mapValues (g : α → β) (r : Registry α) : Registry β := r.map fun e => (e.1, g e.2)

theorem keys_mapValues (g : α → β) (r : Registry α) : keys (mapValues g r) = keys r := by
  rw [keys, mapValues, List.map_map]
  rfl

theorem find?_mapValues (g : α → β) (r : Registry α) (key : Text) :
    find? (mapValues g r) key = (find? r key).map g := by
  induction r with
  | nil => rfl
  | cons entry rest ih =>
    obtain ⟨k, v⟩ := entry
    rw [mapValues, List.map_cons, ← mapValues, find?, find?]
    split_ifs
    · rfl
    · exact ih

theorem mem_of_find? {v : α} (h : find? r key = some v) : (key, v) ∈ r := by
  induction r with
  | nil => cases h
  | cons entry rest ih =>
    obtain ⟨k, w⟩ := entry
    rw [find?] at h
    split_ifs at h with hk
    · rw [hk, ← Option.some.inj h]
      exact List.mem_cons_self
    · exact List.mem_cons_of_mem _ (ih h)

/-- **An entry of a registry without key twice** is what its key finds. -/
theorem find?_of_mem {v : α} (hn : (keys r).Nodup) (h : (key, v) ∈ r) :
    find? r key = some v := by
  induction r with
  | nil => cases h
  | cons entry rest ih =>
    obtain ⟨k, w⟩ := entry
    obtain ⟨hk, hn⟩ := List.nodup_cons.1 hn
    rw [find?]
    rcases List.mem_cons.1 h with he | h
    · obtain ⟨rfl, rfl⟩ := Prod.mk.inj he
      rw [if_pos rfl]
    · have hm : key ∈ rest.map Prod.fst := List.mem_map_of_mem (f := Prod.fst) h
      rw [if_neg (ne_of_mem_of_not_mem hm hk), ih hn h]

/-- **Looking up all keys** gives all values. -/
theorem filterMap_find?_keys (hn : (keys r).Nodup) :
    (keys r).filterMap (find? r) = r.map Prod.snd := by
  rw [keys, List.filterMap_map]
  exact List.filterMap_eq_map_iff_forall_eq_some.2 fun e he => find?_of_mem hn he

theorem update_ne_nil (f : Option α → α) (r : Registry α) : update key f r ≠ [] := by
  intro h
  have hk := keys_update key f r
  rw [h] at hk
  split_ifs at hk with hm
  · rw [← hk] at hm
    cases hm
  · exact List.append_ne_nil_of_right_ne_nil _ (List.cons_ne_nil _ _) hk.symm

/-- **No key twice:** an update keeps the keys distinct. -/
theorem nodup_keys_update {f : Option α → α} (h : (keys r).Nodup) :
    (keys (update key f r)).Nodup := by
  rw [keys_update]
  split_ifs with hm
  · exact h
  · exact (List.perm_append_singleton _ _).nodup_iff.2 (List.nodup_cons.2 ⟨hm, h⟩)

/-- A list with one element more, each element where it comes first. -/
theorem eraseDups_concat [BEq α] [LawfulBEq α] (xs : List α) (a : α) :
    (xs ++ [a]).eraseDups = if a ∈ xs then xs.eraseDups else xs.eraseDups ++ [a] := by
  rw [List.eraseDups_append, List.removeAll]
  by_cases ha : a ∈ xs <;> simp [ha, List.eraseDups_cons]

/-- **The keys are those of all updates**, each where it came first. -/
theorem keys_update_eraseDups {ks : List Text} (f : Option α → α) (h : keys r = ks.eraseDups) :
    keys (update key f r) = (ks ++ [key]).eraseDups := by
  rw [keys_update, eraseDups_concat, h]
  simp only [List.mem_eraseDups]

/-- **A new key** goes last. -/
theorem update_of_find?_none (f : Option α → α) (h : find? r key = none) :
    update key f r = r ++ [(key, f none)] := by
  induction r with
  | nil => rfl
  | cons entry rest ih =>
    obtain ⟨k, v⟩ := entry
    rw [find?] at h
    split_ifs at h with hk
    rw [update, if_neg hk, ih h, List.cons_append]

/-- **A known key** keeps its place. -/
theorem update_of_find?_some {v : α} (f : Option α → α) (h : find? r key = some v) :
    ∃ before after, r = before ++ (key, v) :: after ∧
      update key f r = before ++ (key, f (some v)) :: after := by
  induction r with
  | nil => cases h
  | cons entry rest ih =>
    obtain ⟨k, w⟩ := entry
    rw [find?] at h
    split_ifs at h with hk
    · obtain rfl := Option.some.inj h
      subst hk
      exact ⟨[], rest, rfl, by rw [update, if_pos rfl]; rfl⟩
    · obtain ⟨before, after, hr, hu⟩ := ih h
      exact ⟨(k, w) :: before, after, by rw [hr]; rfl, by rw [update, if_neg hk, hu]; rfl⟩

/-- An entry after an update is one from before, or the updated one. -/
theorem mem_update {f : Option α → α} {e : Text × α} (h : e ∈ update key f r) :
    e ∈ r ∨ e = (key, f (find? r key)) := by
  cases hv : find? r key with
  | none =>
    rw [update_of_find?_none f hv, List.mem_append, List.mem_singleton] at h
    exact h
  | some v =>
    obtain ⟨before, after, hr, hu⟩ := update_of_find?_some f hv
    rw [hu, List.mem_append, List.mem_cons] at h
    rw [hr, List.mem_append, List.mem_cons]
    rcases h with h | h | h
    · exact Or.inl (Or.inl h)
    · exact Or.inr h
    · exact Or.inl (Or.inr (Or.inr h))

/-- **Changing values commutes with an update** that does the same to the value at its key. -/
theorem mapValues_update {g : α → β} {f : Option α → α} {f' : Option β → β}
    (h : g (f (find? r key)) = f' ((find? r key).map g)) :
    mapValues g (update key f r) = update key f' (mapValues g r) := by
  induction r with
  | nil => exact congrArg (fun b => [(key, b)]) h
  | cons entry rest ih =>
    obtain ⟨k, v⟩ := entry
    rw [find?] at h
    rw [update, mapValues, mapValues, List.map_cons, update]
    split_ifs at h ⊢ with hk
    · rw [List.map_cons, h]; rfl
    · rw [List.map_cons, ← mapValues, ih h, ← mapValues]

end Registry
end MediaGrouping
