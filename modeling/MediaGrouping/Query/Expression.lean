/-
# Query expressions

A media query list is a list of alternatives, and an alternative is read as the
features it mentions. Reading never fails: a word that looks like no feature is
skipped.

A feature is a flag, such as `screen` or `not`, or has the values of its tests
`(feature: value)`. The last bare mention of a feature forgets its values, and a
value makes a flag a tested feature again, so a feature's values are those after
its last bare mention. A feature keeps the place of its first mention.
-/

import MediaGrouping.Registry
import MediaGrouping.Text.Lowercase
import MediaGrouping.Text.Split

namespace MediaGrouping

/-- What a query says about a feature. -/
inductive Feature where
  /-- A bare word. -/
  | flag
  /-- The values it is tested for, in order; a test without a value counts as
  one for the empty text. -/
  | values (values : List Text)
  deriving DecidableEq

namespace Feature

/-- The values a feature is tested for. -/
def tested : Feature → List Text
  | .flag => []
  | .values vs => vs

end Feature

/-- One mention of a feature in a query. -/
inductive Mention where
  | bare (feature : Text)
  | valued (feature value : Text)
  deriving DecidableEq

namespace Mention

/-- The characters of a bare word: ASCII letters, digits and `_`. -/
def isWordChar (c : Char) : Bool := c.isAlphanum || c == '_'

/-- A text without one opening parenthesis at its start and one closing one at
its end. -/
def unwrap (t : Text) : Text :=
  let opened := (Text.dropHead? ['('] t).getD t
  (Text.dropTail? [')'] opened).getD opened

/-- The mention a lower case word makes. -/
def ofWord? (word : Text) : Option Mention :=
  if !word.isEmpty && word.all isWordChar then some (.bare word)
  else
    match Text.split [':'] false (unwrap word) with
    | [] => none
    | feature :: rest => if feature.isEmpty then none else some (.valued feature (rest.headD []))

/-- The mentions in an alternative, in order; the word `and` only joins them. -/
def ofAlternative (t : Text) : List Mention :=
  (((Text.spaceItems t).map Text.lowercase).filter (· != ['a', 'n', 'd'])).filterMap ofWord?

/-- The feature mentioned. -/
def feature : Mention → Text
  | .bare feature => feature
  | .valued feature _ => feature

/-- What is known of the feature after the mention. -/
def revise : Mention → Option Feature → Feature
  | .bare _, _ => .flag
  | .valued _ value, some (.values vs) => .values (vs ++ [value])
  | .valued _ value, _ => .values [value]

end Mention

/-- The features of one alternative, in the order of their first mention. -/
abbrev Expression := Registry Feature

namespace Expression

/-- Takes one more mention into account. -/
def note (e : Expression) (m : Mention) : Expression := Registry.update m.feature m.revise e

/-- The features of an alternative. -/
def ofAlternative (t : Text) : Expression := (Mention.ofAlternative t).foldl note []

/-- The alternatives of a query list. -/
def ofQueryList (t : Text) : List Expression := (Text.commaItems t).map ofAlternative

end Expression
end MediaGrouping
