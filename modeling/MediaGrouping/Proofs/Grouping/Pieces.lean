/-
# What a grouped sheet is made of

What holds of the blocks that leave a scope (`forall_blocks`), and is kept by
merging two blocks, holds of all merged blocks (`forall_emission`). Putting merged
blocks in order loses none and doubles none (`sorted_perm`). What stays of a scope
stays the same when it is grouped again (`rest_rest`).
-/

import MediaGrouping.Proofs.Grouping.Reference
import MediaGrouping.Proofs.Registry
import Mathlib.Data.List.Induction

namespace MediaGrouping

namespace Tree

variable {o : Options} {t : Tree}

@[simp] theorem content_withChildren (t : Tree) (ts : List Tree) :
    (t.withChildren ts).content = t.content := rfl

@[simp] theorem children_withChildren (t : Tree) (ts : List Tree) :
    (t.withChildren ts).children = ts := rfl

theorem withChildren_children (t : Tree) : t.withChildren t.children = t := by
  cases t
  rfl

theorem content_extend (t : Tree) (ts : List Tree) :
    (t.extend ts).content = t.content ∨ (t.extend ts).content = t.content.withBlock := by
  rw [extend]
  split
  · exact Or.inl rfl
  · exact Or.inr rfl

theorem children_extend (t : Tree) (ts : List Tree) :
    (t.extend ts).children = t.children ++ ts := by
  rw [extend]
  split_ifs with h
  · rw [List.isEmpty_iff.1 h, List.append_nil]
  · rfl

theorem isMedia_enclosed (rule : AtRule) (t : Tree) : (t.enclosed rule).isMedia = t.isMedia := by
  obtain ⟨c, s, cs⟩ := t
  cases c <;> rfl

theorem isMedia_extend (t : Tree) (ts : List Tree) : (t.extend ts).isMedia = t.isMedia := by
  obtain ⟨c, s, cs⟩ := t
  rw [extend]
  split_ifs
  · rfl
  · cases c <;> rfl

theorem query_extend (t : Tree) (ts : List Tree) : (t.extend ts).query = t.query := by
  obtain ⟨c, s, cs⟩ := t
  rw [extend]
  split_ifs
  · rfl
  · cases c <;> rfl

theorem query_enclosed (rule : AtRule) (t : Tree) : (t.enclosed rule).query = t.query := by
  obtain ⟨c, s, cs⟩ := t
  cases c <;> rfl

theorem exists_atRule_of_isMedia (h : t.isMedia = true) :
    ∃ r, t.content = .atRule r ∧ r.name = Grouping.mediaName ∧ r.params = t.query := by
  obtain ⟨c, s, cs⟩ := t
  cases c with
  | atRule r => exact ⟨r, rfl, beq_iff_eq.1 h, rfl⟩
  | root | rule | declaration | comment => cases h

theorem dissolveAll_append (ts us : List Tree) :
    dissolveAll o (ts ++ us) = dissolveAll o ts ++ dissolveAll o us := by
  induction ts with
  | nil => rfl
  | cons t ts ih => rw [List.cons_append, dissolveAll, dissolveAll, ih, List.append_assoc]

end Tree

namespace Grouping

variable {α β : Type} {o : Options} {r : Registry α} {c t : Tree} {cs ts : List Tree}

theorem foreignRule?_eq_some {c : Content} {rule : AtRule} (h : foreignRule? o c = some rule) :
    Scope.foreign o mediaName c = true ∧ c = .atRule rule := by
  rw [foreignRule?] at h
  split_ifs at h with hf
  exact ⟨hf, Content.eq_of_atRule? h⟩

theorem content_trimmed (o : Options) (c : Tree) : (trimmed o c).content = c.content := by
  rw [trimmed]
  split <;> rfl

theorem isMedia_trimmed (o : Options) (c : Tree) : (trimmed o c).isMedia = c.isMedia := by
  rw [Tree.isMedia, Tree.isMedia, content_trimmed]

/-- Wrappers are not trimmed. -/
theorem trimmed_of_wrapper (h : o.wraps c.content = true) : trimmed o c = c := by
  have hf : foreignRule? o c.content = none := by
    rw [Option.eq_none_iff_forall_not_mem]
    intro rule hr
    have := Scope.wraps_of_foreign (foreignRule?_eq_some hr).1
    rw [h] at this
    cases this
  rw [trimmed, hf]

theorem mem_children_trimmed (h : t ∈ (trimmed o c).children) : t ∈ c.children := by
  rw [trimmed] at h
  split at h
  · exact List.mem_of_mem_filter h
  · exact h

/-- **What has been trimmed** has no block left to lose. -/
theorem trimmed_trimmed (o : Options) (c : Tree) : trimmed o (trimmed o c) = trimmed o c := by
  cases hf : foreignRule? o c.content with
  | none => simp only [trimmed, hf]
  | some rule =>
    simp only [trimmed, hf, Tree.content_withChildren, Tree.children_withChildren,
      List.filter_filter, Bool.and_self]
    rfl

theorem mem_rest : c ∈ rest o cs ↔ ∃ d ∈ cs, d.isMedia = false ∧ trimmed o d = c := by
  simp only [rest, List.mem_map, List.mem_filter, Bool.not_eq_true', and_assoc]

theorem isMedia_of_mem_rest (h : c ∈ rest o cs) : c.isMedia = false := by
  obtain ⟨d, -, hd, rfl⟩ := mem_rest.1 h
  exact (isMedia_trimmed o d).trans hd

/-- **What stays of what stays** is the same. -/
theorem rest_rest (o : Options) (cs : List Tree) : rest o (rest o cs) = rest o cs := by
  have hf : (rest o cs).filter (!·.isMedia) = rest o cs :=
    List.filter_eq_self.2 fun c hc => by rw [isMedia_of_mem_rest hc]; rfl
  rw [rest, hf, rest, List.map_map]
  exact List.map_congr_left fun c _ => trimmed_trimmed o c

/-- **What holds of the blocks that leave a scope.** -/
theorem forall_blocks {p : Tree → Prop} (hm : ∀ c ∈ cs, c.isMedia = true → p c)
    (he : ∀ c ∈ cs, ∀ rule, foreignRule? o c.content = some rule → ∀ d ∈ c.children,
      d.isMedia = true → p (d.enclosed rule)) : ∀ t ∈ blocks o cs, p t := by
  intro t ht
  obtain ⟨c, hc, ht⟩ := List.mem_flatMap.1 ht
  rw [blocksOf] at ht
  split_ifs at ht with hmedia
  · rw [List.mem_singleton.1 ht]
    exact hm c hc hmedia
  · split at ht
    · rename_i rule hrule
      obtain ⟨d, hd, rfl⟩ := List.mem_map.1 ht
      obtain ⟨hd, hdm⟩ := List.mem_filter.1 hd
      exact he c hc rule hrule d hd hdm
    · cases ht

theorem isMedia_of_mem_blocks (h : t ∈ blocks o cs) : t.isMedia = true :=
  forall_blocks (fun _ _ hm => hm) (fun _ _ _ _ d _ hd => (d.isMedia_enclosed _).trans hd) t h

/-- **A block with a new query list** is added at the end. -/
theorem mergeBlock_of_none {r : Registry Tree} (h : Registry.find? r t.query = none) :
    mergeBlock r t = r ++ [(t.query, t)] := Registry.update_of_find?_none _ h

/-- **A block with a known query list** extends the block that has it. -/
theorem mergeBlock_of_some {r : Registry Tree} {u : Tree} (h : Registry.find? r t.query = some u) :
    ∃ before after, r = before ++ (t.query, u) :: after ∧
      mergeBlock r t = before ++ (t.query, u.extend t.children) :: after :=
  Registry.update_of_find?_some _ h

/-- Blocks merged under their query lists. -/
def IsMerged (r : Registry Tree) : Prop := ∀ e ∈ r, e.2.isMedia = true ∧ e.2.query = e.1

theorem IsMerged.mergeBlock {r : Registry Tree} (hr : IsMerged r) (ht : t.isMedia = true) :
    IsMerged (mergeBlock r t) := by
  intro e he
  rcases Registry.mem_update he with he | rfl
  · exact hr e he
  · cases hf : Registry.find? r t.query with
    | none => exact ⟨ht, rfl⟩
    | some u =>
      obtain ⟨hu, hq⟩ := hr _ (Registry.mem_of_find? hf)
      exact ⟨(u.isMedia_extend _).trans hu, (u.query_extend _).trans hq⟩

theorem merged_append_singleton (ts : List Tree) (t : Tree) :
    merged (ts ++ [t]) = mergeBlock (merged ts) t := by
  rw [merged, List.foldl_append, ← merged]
  rfl

theorem mem_keys_merged {k : Text} : k ∈ Registry.keys (merged ts) ↔ ∃ t ∈ ts, t.query = k := by
  induction ts using List.reverseRecOn with
  | nil => simp [merged, Registry.keys]
  | append_singleton ts t ih =>
    rw [merged_append_singleton, mergeBlock, Registry.keys_update]
    simp only [List.mem_append, List.mem_singleton, or_and_right, exists_or, exists_eq_left, ← ih]
    split_ifs with h
    · exact ⟨Or.inl, fun hk => hk.elim id fun he => he ▸ h⟩
    · rw [List.mem_append, List.mem_singleton, eq_comm]

/-- **The query lists of merged blocks** are those of the blocks, in the order of first
arrival. -/
theorem keys_merged (ts : List Tree) :
    Registry.keys (merged ts) = (ts.map Tree.query).eraseDups := by
  induction ts using List.reverseRecOn with
  | nil => rfl
  | append_singleton ts t ih =>
    rw [merged_append_singleton, mergeBlock, List.map_append, List.map_singleton]
    exact Registry.keys_update_eraseDups _ ih

/-- Merging adds no key twice. -/
theorem nodup_keys_merged (ts : List Tree) : (Registry.keys (merged ts)).Nodup := by
  have step : ∀ (ts : List Tree) {r : Registry Tree}, (Registry.keys r).Nodup →
      (Registry.keys (ts.foldl mergeBlock r)).Nodup := by
    intro ts
    induction ts with
    | nil => exact fun h => h
    | cons t ts ih => exact fun h => ih (Registry.nodup_keys_update h)
  exact step ts List.nodup_nil

/-- **What merging keeps** holds of every merged block and its query list, if it
holds of every block. -/
theorem forall_merged {p : Text → Tree → Prop} (hp : ∀ t ∈ ts, p t.query t)
    (hm : ∀ k t u, p k t → p k u → p k (t.extend u.children)) :
    ∀ e ∈ merged ts, p e.1 e.2 := by
  have step : ∀ (ts : List Tree) {r : Registry Tree}, (∀ t ∈ ts, p t.query t) →
      (∀ e ∈ r, p e.1 e.2) → ∀ e ∈ ts.foldl mergeBlock r, p e.1 e.2 := by
    intro ts
    induction ts with
    | nil => exact fun _ hr => hr
    | cons t ts ih =>
      intro r ht hr
      rw [List.forall_mem_cons] at ht
      refine ih ht.2 fun e he => ?_
      rcases Registry.mem_update he with he | rfl
      · exact hr e he
      · cases hf : Registry.find? r t.query with
        | none => exact ht.1
        | some u => exact hm _ u t (hr _ (Registry.mem_of_find? hf)) ht.1
  exact step ts hp (List.forall_mem_nil _)

theorem isMerged_merged (h : ∀ t ∈ ts, t.isMedia = true) : IsMerged (merged ts) :=
  forall_merged (p := fun k t => t.isMedia = true ∧ t.query = k) (fun t ht => ⟨h t ht, rfl⟩)
    fun _ t _ ht _ => ⟨(t.isMedia_extend _).trans ht.1, (t.query_extend _).trans ht.2⟩

theorem sorted_nil : sorted o ([] : Registry α) = [] := by
  rw [sorted, show o.sort.sort (Registry.keys ([] : Registry α)) = [] from List.mergeSort_nil]
  rfl

theorem sorted_mapValues (g : α → β) : sorted o (r.mapValues g) = (sorted o r).map g := by
  rw [sorted, sorted, Registry.keys_mapValues, List.map_filterMap]
  exact List.filterMap_congr fun k _ => Registry.find?_mapValues g r k

theorem exists_key_of_sorted {v : α} (h : v ∈ sorted o r) : ∃ k, (k, v) ∈ r := by
  obtain ⟨k, -, hk⟩ := List.mem_filterMap.1 h
  exact ⟨k, Registry.mem_of_find? hk⟩

/-- **Sorting is a permutation** of the values. -/
theorem sorted_perm (hn : (Registry.keys r).Nodup) : (sorted o r).Perm (r.map Prod.snd) := by
  rw [← Registry.filterMap_find?_keys hn]
  exact (List.mergeSort_perm _ _).filterMap _

/-- **What merging keeps** holds of the merged blocks of a scope, if it holds of
the blocks that leave it. -/
theorem forall_emission {p : Text → Tree → Prop} (hp : ∀ t ∈ blocks o cs, p t.query t)
    (hm : ∀ k t u, p k t → p k u → p k (t.extend u.children)) :
    ∀ t ∈ emission o cs, ∃ k, p k t := fun t ht =>
  (exists_key_of_sorted ht).imp fun k hk => forall_merged hp hm (k, t) hk

theorem isMedia_of_mem_emission (h : t ∈ emission o cs) : t.isMedia = true :=
  (forall_emission (fun _ ht => isMedia_of_mem_blocks ht)
    (fun _ t u ht _ => (t.isMedia_extend u.children).trans ht) t h).elim fun _ hm => hm

end Grouping
end MediaGrouping
