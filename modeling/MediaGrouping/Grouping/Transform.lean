/-
# Grouping the media queries of a sheet

A run moves every `@media` block to the end of its scope, blocks with the same
query list merged into one, and removes the wrappers. It works in steps:

1. a source map annotation at the end of the sheet is set aside;
2. the blocks are resolved and merged one after the other, in the order of the
   sheet as it was at the start;
3. the merged blocks of every scope are appended to it in the order of the
   options, and a wrapper that had any is replaced by its children;
4. the wrappers that are left are replaced by their children;
5. the annotation is put back as the last node.

A nested wrapper ends the run in step 2, as it is then: with the blocks merged so
far, and the annotation, out of the sheet.
-/

import MediaGrouping.Grouping.Aggregate
import MediaGrouping.Grouping.Event

namespace MediaGrouping

/-- How a run ended: the forest it left, what it reported, and the nested
wrapper it stopped at, if any. -/
structure Outcome where
  forest : Forest
  events : List Event
  failure : Option NestedWrapper

/-- A run that is taking in blocks. -/
structure Capture where
  forest : Forest
  resolver : Resolver
  aggregator : Aggregator
  /-- What was reported, in order. -/
  events : List Event
  leftInPlace : Nat

namespace Grouping

/-- The name of the at-rules that are grouped. -/
def mediaName : Text := "media".toList

/-- How the text of a source map annotation begins, in lower case. -/
def annotationStart : Text := "# sourcemappingurl=".toList

/-- Whether a node is a source map annotation. -/
def isAnnotation : Content → Bool
  | .comment c => (Text.dropHead? annotationStart (Text.lowercase c.text)).isSome
  | _ => false

/-- **The case of its letters** does not matter to how an annotation begins. -/
theorem isAnnotation_of_toLower {c : Comment} {start rest : Text} (h : c.text = start ++ rest)
    (hstart : start.map Char.toLower = annotationStart) : isAnnotation (.comment c) = true := by
  have hlower : annotationStart.all (·.toNat < 128) = true := by decide
  have hascii : ∀ d ∈ start, d.toNat < 128 := fun d hd =>
    Text.ascii_of_toLower <| of_decide_eq_true <|
      List.all_eq_true.1 hlower _ (hstart ▸ List.mem_map_of_mem hd)
  have hdrop : Text.dropHead? annotationStart (Text.lowercase c.text)
      = some (Text.lowercaseAfter (start.reverse ++ []) rest) := by
    rw [h, Text.lowercase, Text.lowercaseAfter_append_of_ascii hascii, hstart,
      Text.dropHead?_append]
  exact congrArg Option.isSome hdrop

/-- The source map annotation at the end of a sheet. -/
def annotation? (f : Forest) (root : NodeId) : Option NodeId :=
  (f.children root).getLast?.filter (f.holds isAnnotation)

/-- Takes one block in, or leaves it. At a nested wrapper the run ends, as it is then. -/
def capture (o : Options) (root : NodeId) (s : Capture) (block : NodeId) :
    Except (NestedWrapper × Capture) Capture :=
  match s.resolver.resolve o mediaName s.forest block with
  | .error e => .error (e.wrapper, { s with forest := e.forest, resolver := e.resolver })
  | .ok (.tooDeep, resolver, forest) =>
    .ok { s with
      forest := forest
      resolver := resolver
      events := s.events ++ [.leftInPlace (((forest.content? block).map Content.describe).getD [])]
      leftInPlace := s.leftInPlace + 1 }
  | .ok (.rootGroup, resolver, forest) =>
    let (aggregator, forest) :=
      s.aggregator.aggregate forest Resolver.rootGroupId root .root block
    .ok { s with forest := forest, resolver := resolver, aggregator := aggregator }
  | .ok (.wrapperGroup id anchor, resolver, forest) =>
    let (aggregator, forest) := s.aggregator.aggregate forest id anchor .wrapper block
    .ok { s with forest := forest, resolver := resolver, aggregator := aggregator }

/-- **A nested wrapper ends a run as it was** before the block. -/
theorem unchanged_of_capture {o : Options} {root block : NodeId} {s s' : Capture}
    {e : NestedWrapper} (h : capture o root s block = .error (e, s')) : s' = s := by
  rw [capture] at h
  split at h
  · next refusal hr =>
    obtain ⟨hresolver, hforest⟩ := Resolver.unchanged_of_refusal hr
    rw [hresolver, hforest] at h
    cases h
    rfl
  all_goals cases h

/-- Takes blocks in, up to the first nested wrapper. -/
def captureAll (o : Options) (root : NodeId) :
    Capture → List NodeId → Capture × Option NestedWrapper
  | s, [] => (s, none)
  | s, block :: rest =>
    match capture o root s block with
    | .error (e, s) => (s, some e)
    | .ok s => captureAll o root s rest

/-- The merged blocks of a group, in the order of the options. -/
def sortedBlocks (o : Options) (g : Group) : List NodeId :=
  (o.sort.sort (Registry.keys g.merged)).filterMap (Registry.find? g.merged)

/-- Puts the merged blocks of a group at the end of its scope; a wrapper is then
replaced by its children. -/
def emitGroup (o : Options) (f : Forest) (g : Group) : Forest :=
  let f := f.appendAll g.anchor (sortedBlocks o g)
  match g.kind with
  | .root => f
  | .wrapper => f.unwrap g.anchor

/-- Puts the merged blocks of all groups back. -/
def emit (o : Options) (f : Forest) (groups : List Group) : Forest :=
  groups.foldl (emitGroup o) f

/-- How many merged blocks groups put back. -/
def emitted (o : Options) (groups : List Group) : Nat :=
  (groups.flatMap (sortedBlocks o)).length

/-- Groups the media queries below a root. -/
def transform (o : Options) (f : Forest) (root : NodeId) : Outcome :=
  let annotation := annotation? f root
  let f := match annotation with
    | some comment => f.detach comment
    | none => f
  let blocks := f.atRulesNamed mediaName root
  match captureAll o root ⟨f, .start, .start, [], 0⟩ blocks with
  | (s, some e) => ⟨s.forest, s.events, some e⟩
  | (s, none) =>
    let groups := s.aggregator.groups
    let f := emit o s.forest groups
    let wrappers := f.collect o.isWrapper root
    let f := wrappers.foldl Forest.unwrap f
    let summary : Event := .grouped
      { blocks := blocks.length
        captured := s.aggregator.captured
        emitted := emitted o groups
        leftInPlace := s.leftInPlace
        unusedWrappers := wrappers.length }
    match annotation with
    | some comment =>
      ⟨f.append root comment, s.events ++ [.annotationKept, summary], none⟩
    | none => ⟨f, s.events ++ [summary], none⟩

end Grouping
end MediaGrouping
