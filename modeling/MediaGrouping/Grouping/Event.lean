/-
# Events

What a run reports while it works: the steps it starts, the blocks it leaves
where they are, and how many nodes of each kind it dealt with.
-/

import MediaGrouping.Text.Basic

namespace MediaGrouping

/-- The counts of a finished grouping run. -/
structure Summary where
  /-- The `@media` blocks of the sheet. -/
  blocks : Nat
  /-- Those of them that were merged. -/
  captured : Nat
  /-- The merged blocks put back. -/
  emitted : Nat
  /-- The blocks that were too deep to move. -/
  leftInPlace : Nat
  /-- The wrappers removed without a block of their own. -/
  unusedWrappers : Nat
  deriving DecidableEq

/-- Something worth reporting. -/
inductive Event where
  | runningPlugin (name : Text)
  | leftInPlace (block : Text)
  | annotationKept
  | grouped (summary : Summary)
  deriving DecidableEq

namespace Event

/-- How important an event is. -/
inductive Level where
  | debug
  | trace
  deriving DecidableEq

/-- The value of a field of an event. -/
inductive Field where
  | number (n : Nat)
  | text (t : Text)
  deriving DecidableEq

/-- The name of a level. -/
def Level.name : Level → String
  | .debug => "DEBUG"
  | .trace => "TRACE"

/-- The level of an event. -/
def level : Event → Level
  | .runningPlugin _ | .grouped _ => .debug
  | .leftInPlace _ | .annotationKept => .trace

/-- The text of an event. -/
def message : Event → String
  | .runningPlugin _ => "Running plugin"
  | .leftInPlace _ => "Leaving nested @media in place"
  | .annotationKept => "Keeping sourcemap annotation last"
  | .grouped _ => "Grouped media queries"

/-- The fields of an event, by name. -/
def fields : Event → List (String × Field)
  | .runningPlugin name => [("plugin", .text name)]
  | .leftInPlace block => [("block", .text block)]
  | .annotationKept => []
  | .grouped s =>
    [("blocks", .number s.blocks), ("captured", .number s.captured),
      ("emitted", .number s.emitted), ("left_in_place", .number s.leftInPlace),
      ("unused_wrappers", .number s.unusedWrappers)]

end Event
end MediaGrouping
