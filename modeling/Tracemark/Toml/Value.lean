import Tracemark.Decimal.Binary64
import Tracemark.OrderedMap
import Tracemark.Text.Basic

/-! TOML documents as data.

A table remembers how it was made, since that decides whether later parts of a document may add to
it. Keys keep the order in which they came.
-/

set_option autoImplicit false

namespace Tracemark.Toml

/-- A number with a point or an exponent, a value without bounds, or none at all. -/
inductive Real where
  | finite (negative : Bool) (number : Decimal.Binary64)
  | infinite (negative : Bool)
  | undefined
  deriving DecidableEq, Repr

inductive TableForm where
  /-- Written in braces. -/
  | inline
  /-- Made by a dotted key in braces. -/
  | inlineDotted
  /-- Made by a header of its own. -/
  | header
  /-- Made by a header of a table inside it. -/
  | implied
  /-- Made by a dotted key. -/
  | dotted
  deriving DecidableEq, Repr

inductive Value where
  | string (text : Text)
  | integer (number : Int)
  | real (number : Real)
  | boolean (value : Bool)
  | datetime
  | array (items : List Value)
  | table (form : TableForm) (entries : OrderedMap Text Value)
  /-- An array whose tables have headers of their own. -/
  | tables (items : List (TableForm × OrderedMap Text Value))

abbrev Entries := OrderedMap Text Value

def Value.typeName : Value → String
  | string _ => "string"
  | integer _ => "integer"
  | real _ => "float"
  | boolean _ => "boolean"
  | datetime => "datetime"
  | array _ => "array"
  | table .inline _ | table .inlineDotted _ => "inline table"
  | table _ _ => "table"
  | tables _ => "array of tables"

end Tracemark.Toml
