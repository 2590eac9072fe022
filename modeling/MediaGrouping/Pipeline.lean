/-
# Pipelines

A pipeline reads a sheet, lets its plugins change the tree one after the other,
and writes the sheet again. The first plugin that fails ends it. Grouping media
queries is a plugin.
-/

import MediaGrouping.Grouping.Transform
import MediaGrouping.Sheet.Parser

namespace MediaGrouping

/-- Why a plugin failed. -/
inductive Failure where
  | nestedWrapper (error : NestedWrapper)
  | message (text : Text)
  deriving DecidableEq

/-- What a plugin left: the forest, what it reported, and why it failed if it did. -/
structure Report where
  forest : Forest
  events : List Event
  failure : Option Failure

/-- A change to the tree of a sheet. -/
structure Plugin where
  name : Text
  run : Forest → NodeId → Report

/-- Why a sheet could not be processed. -/
inductive ProcessError where
  | parse (error : ParseError)
  | plugin (name : Text) (failure : Failure)
  deriving DecidableEq

/-- What became of a sheet: what was reported, and its new text or an error. -/
structure Processed where
  events : List Event
  result : Except ProcessError Text

namespace Failure

/-- The text of a failure. -/
def describe : Failure → String
  | .nestedWrapper error => error.message
  | .message text => String.ofList text

end Failure

namespace ProcessError

/-- The texts of an error and of its causes, the error first. -/
def chain : ProcessError → List String
  | .parse error => [error.message]
  | .plugin name failure =>
    ["plugin `" ++ String.ofList name ++ "` failed", failure.describe]

end ProcessError

namespace Plugin

/-- The plugin that groups media queries. -/
def grouping (o : Options) : Plugin where
  name := "mqgroup".toList
  run f root :=
    let outcome := Grouping.transform o f root
    ⟨outcome.forest, outcome.events, outcome.failure.map .nestedWrapper⟩

/-- Runs plugins in order, up to the first that fails. -/
def runAll (root : NodeId) : List Plugin → Forest → List Event × Except ProcessError Forest
  | [], f => ([], .ok f)
  | p :: rest, f =>
    let report := p.run f root
    let events := .runningPlugin p.name :: report.events
    match report.failure with
    | some failure => (events, .error (.plugin p.name failure))
    | none =>
      let (later, result) := runAll root rest report.forest
      (events ++ later, result)

end Plugin

/-- Reads a sheet, runs plugins on it and writes it. -/
def process (plugins : List Plugin) (css : Text) : Processed :=
  match Tree.parse css with
  | .error error => ⟨[], .error (.parse error)⟩
  | .ok tree =>
    let (root, forest) := Forest.empty.plant tree
    let (events, result) := Plugin.runAll root plugins forest
    ⟨events, result.map (·.css root)⟩

/-- The sheet with its media queries grouped. -/
def pack (css : Text) (o : Options) : Processed := process [.grouping o] css

end MediaGrouping
