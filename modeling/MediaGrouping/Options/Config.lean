/-
# Configurations

Options written down as data: whether to sort, and the name of the wrapper
at-rule, both of which may be left open. A configuration is an object with the
fields `sort` and `wrapperName`, other fields being ignored, or an array of
exactly the two values in this order.
-/

import MediaGrouping.Options.Basic

namespace MediaGrouping

/-- A value of a configuration file. -/
inductive Datum where
  | null
  | bool (value : Bool)
  | number
  | text (value : Text)
  | array (items : List Datum)
  | object (fields : List (Text × Datum))

/-- A configuration; what is left open keeps its default. -/
structure Config where
  sort : Option Bool
  wrapperName : Option Text
  deriving DecidableEq

namespace Datum

/-- An optional truth value; anything else is refused. -/
def asBool? : Datum → Option (Option Bool)
  | .null => some none
  | .bool b => some (some b)
  | _ => none

/-- An optional text; anything else is refused. -/
def asText? : Datum → Option (Option Text)
  | .null => some none
  | .text t => some (some t)
  | _ => none

end Datum

namespace Config

/-- The configuration made of two values. -/
def ofPair? (sort wrapperName : Datum) : Option Config :=
  match sort.asBool?, wrapperName.asText? with
  | some s, some w => some ⟨s, w⟩
  | _, _ => none

/-- The configuration that a value describes. -/
def ofDatum? : Datum → Option Config
  | .object fields =>
    ofPair? (Registry.find? fields "sort".toList |>.getD .null)
      (Registry.find? fields "wrapperName".toList |>.getD .null)
  | .array [sort, wrapperName] => ofPair? sort wrapperName
  | _ => none

/-- The options of a configuration. -/
def toOptions (c : Config) : Options :=
  let options : Options := { sort := if c.sort.getD false then .minWidth else .preserve }
  match c.wrapperName with
  | some name => options.withWrapperName name
  | none => options

end Config
end MediaGrouping
