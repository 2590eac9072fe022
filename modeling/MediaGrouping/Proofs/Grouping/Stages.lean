/-
# The stages of a run

A run sets the annotation aside (`setAside`), takes the blocks (`captured`), and, unless
it is given up there, puts the groups back and dissolves the wrappers (`finished`). How it
ends, what it leaves and what it reports is told by these (`transform_eq`, `events_eq`).
-/

import MediaGrouping.Grouping.Transform

namespace MediaGrouping
namespace Grouping

/-- The forest once the annotation is set aside. -/
def setAside (f : Forest) (root : NodeId) : Forest :=
  match annotation? f root with
  | some comment => f.detach comment
  | none => f

/-- The blocks of a run, taken. -/
def captured (o : Options) (f : Forest) (root : NodeId) : Capture × Option NestedWrapper :=
  captureAll o root ⟨setAside f root, .start, .start, [], 0⟩
    ((setAside f root).atRulesNamed mediaName root)

/-- The forest once groups are put back and wrappers dissolved. -/
def finished (o : Options) (root : NodeId) (s : Capture) : Forest :=
  ((emit o s.forest s.aggregator.groups).collect o.isWrapper root).foldl Forest.unwrap
    (emit o s.forest s.aggregator.groups)

/-- The summary of a run whose blocks are all taken. -/
def summary (o : Options) (f : Forest) (root : NodeId) : Summary where
  blocks := ((setAside f root).atRulesNamed mediaName root).length
  captured := (captured o f root).1.aggregator.captured
  emitted := emitted o (captured o f root).1.aggregator.groups
  leftInPlace := (captured o f root).1.leftInPlace
  unusedWrappers :=
    ((emit o (captured o f root).1.forest (captured o f root).1.aggregator.groups).collect
      o.isWrapper root).length

/-- What a run reports once its blocks are all taken. -/
def closing (o : Options) (f : Forest) (root : NodeId) : List Event :=
  (if (annotation? f root).isSome then [.annotationKept] else []) ++ [.grouped (summary o f root)]

/-- **How a run ends** is how taking its blocks ends. -/
theorem transform_eq (o : Options) (f : Forest) (root : NodeId) :
    (transform o f root).failure = (captured o f root).2 ∧
      (transform o f root).forest = match (captured o f root).2 with
        | some _ => (captured o f root).1.forest
        | none => match annotation? f root with
          | some comment => (finished o root (captured o f root).1).append root comment
          | none => finished o root (captured o f root).1 := by
  have hc : captureAll o root ⟨setAside f root, .start, .start, [], 0⟩
      ((setAside f root).atRulesNamed mediaName root) = captured o f root := rfl
  rw [setAside] at hc
  generalize captured o f root = r at hc ⊢
  obtain ⟨s, e⟩ := r
  rw [transform]
  cases ha : annotation? f root <;> rw [ha] at hc <;> simp only [hc] <;> cases e <;>
    exact ⟨rfl, rfl⟩

/-- **What a run reports**: what it did when it took the blocks, and how it closed. -/
theorem events_eq (o : Options) (f : Forest) (root : NodeId) :
    (transform o f root).events = (captured o f root).1.events ++
      match (captured o f root).2 with
      | some _ => []
      | none => closing o f root := by
  have hc : captureAll o root ⟨setAside f root, .start, .start, [], 0⟩
      ((setAside f root).atRulesNamed mediaName root) = captured o f root := rfl
  have hblocks : (setAside f root).atRulesNamed mediaName root
      = (match annotation? f root with
        | some comment => f.detach comment
        | none => f).atRulesNamed mediaName root := rfl
  rw [closing, summary, hblocks]
  rw [setAside] at hc
  generalize captured o f root = r at hc ⊢
  obtain ⟨s, e⟩ := r
  rw [transform]
  cases ha : annotation? f root <;> rw [ha] at hc <;> simp only [hc] <;> cases e <;> simp

end Grouping
end MediaGrouping
