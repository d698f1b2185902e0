import Tracemark.Offsets.Settings
import Tracemark.Text.Numeral
import Tracemark.Text.Quoted
import Tracemark.Toml.Document

/-! Settings from a TOML file.

The table `offsets` may hold `debug`, `strategy` and `attribute-prefix`; what it leaves out has
its default. Other tables are ignored. The entries are looked at in their order and the first that
does not fit is reported.
-/

set_option autoImplicit false

namespace Tracemark.Offsets

open Tracemark.Alignment (Strategy)

inductive Found where
  | boolean (value : Bool)
  | integer (number : Int)
  | real (number : Toml.Real)
  | string (text : Text)
  | sequence
  | map
  deriving DecidableEq, Repr

inductive Wanted where
  | boolean
  | string
  | settings
  deriving DecidableEq, Repr

inductive Mismatch where
  | unknownField (name : Text)
  | unknownStrategy (name : Text)
  | wrongType (found : Found) (wanted : Wanted)
  /-- A strategy that is neither a name nor a table. -/
  | notNameOrTable
  /-- A strategy as a table without entries. -/
  | noEntry
  /-- A strategy as a table with several entries. -/
  | severalEntries
  /-- A strategy as a table, with a value under its name that is no table. -/
  | notTable (typeName : String)
  /-- A strategy as a table, with something in the table under its name. -/
  | notEmptyTable
  /-- A strategy as a table, with tables of an array under its name. -/
  | notEmptyArray
  deriving DecidableEq, Repr

inductive SettingsError where
  | unreadable
  | malformed
  | mismatch (mismatch : Mismatch)
  deriving DecidableEq, Repr

def realText : Toml.Real → Text
  | .undefined => "NaN".toList
  | .infinite negative => (if negative then "-inf" else "inf").toList
  | .finite negative number =>
    let (digits, scale) := number.shortest
    (if negative then ['-'] else []) ++ Decimal.positional digits scale

def Found.message : Found → String
  | boolean value => "boolean `" ++ String.ofList (Text.ofBool value) ++ "`"
  | integer number => "integer `" ++ toString number ++ "`"
  | real number => "floating point `" ++ String.ofList (realText number) ++ "`"
  | string text => "string " ++ String.ofList text.quote
  | sequence => "sequence"
  | map => "map"

def Wanted.message : Wanted → String
  | boolean => "a boolean"
  | string => "a string"
  | settings => "struct OffsetsConfig"

def Mismatch.message : Mismatch → String
  | unknownField name =>
    "unknown field `" ++ String.ofList name ++
      "`, expected one of `debug`, `strategy`, `attribute-prefix`"
  | unknownStrategy name =>
    "unknown variant `" ++ String.ofList name ++ "`, expected `diff` or `sequential`"
  | wrongType found wanted => "invalid type: " ++ found.message ++ ", expected " ++ wanted.message
  | notNameOrTable => "wanted string or table"
  | noEntry => "wanted exactly 1 element, found 0 elements"
  | severalEntries => "wanted exactly 1 element, more than 1 element"
  | notTable typeName => "expected table, found " ++ typeName
  | notEmptyTable => "expected empty table"
  | notEmptyArray => "expected empty array"

def Found.ofValue : Toml.Value → Found
  | .string text => .string text
  | .integer number => .integer number
  | .real number => .real number
  | .boolean value => .boolean value
  | .array _ | .tables _ => .sequence
  | .datetime | .table _ _ => .map

def strategyNamed (name : Text) : Except Mismatch Strategy :=
  if name = "diff".toList then .ok .diff
  else if name = "sequential".toList then .ok .sequential
  else .error (.unknownStrategy name)

/-- What stands under the name of a strategy must hold nothing. -/
def checkEmpty : Toml.Value → Except Mismatch Unit
  | .table _ ⟨[]⟩ | .array [] => .ok ()
  | .table _ _ | .array _ => .error .notEmptyTable
  | .tables _ => .error .notEmptyArray
  | other => .error (.notTable other.typeName)

def readStrategy : Toml.Value → Except Mismatch Strategy
  | .string name => strategyNamed name
  | .table _ ⟨[]⟩ => .error .noEntry
  | .table _ ⟨[(name, value)]⟩ => do
    let strategy ← strategyNamed name
    checkEmpty value
    return strategy
  | .table _ _ => .error .severalEntries
  | _ => .error .notNameOrTable

def readBool : Toml.Value → Except Mismatch Bool
  | .boolean value => .ok value
  | other => .error (.wrongType (.ofValue other) .boolean)

def readString : Toml.Value → Except Mismatch String
  | .string text => .ok (String.ofList text)
  | other => .error (.wrongType (.ofValue other) .string)

namespace Settings

def readEntry (settings : Settings) (entry : Text × Toml.Value) : Except Mismatch Settings := do
  let (name, value) := entry
  if name = "debug".toList then return { settings with debug := ← readBool value }
  else if name = "strategy".toList then return { settings with strategy := ← readStrategy value }
  else if name = "attribute-prefix".toList then
    return { settings with attributeLead := ← readString value }
  else throw (.unknownField name)

/-- Read settings that are listed without names, in the order debug, strategy, prefix. Further
values are ignored. -/
def readList (values : List Toml.Value) : Except Mismatch Settings :=
  let names := ["debug".toList, "strategy".toList, "attribute-prefix".toList]
  (names.zip values).foldlM readEntry {}

def datetimeField : Text := "$__toml_private_datetime".toList

def ofValue : Toml.Value → Except Mismatch Settings
  | .table _ entries => entries.entries.foldlM readEntry {}
  | .array values => readList values
  | .tables tables => readList (tables.map fun (form, entries) => .table form entries)
  | .datetime => .error (.unknownField datetimeField)
  | other => .error (.wrongType (.ofValue other) .settings)

def ofToml (source : Text) : Except SettingsError Settings :=
  match Toml.Document.read? source with
  | none => .error .malformed
  | some entries =>
    match entries.get? "offsets".toList with
    | none => .ok {}
    | some value => (ofValue value).mapError .mismatch

def load (content : Option Text) : Except SettingsError Settings :=
  match content with
  | none => .error .unreadable
  | some source => ofToml source

end Settings

end Tracemark.Offsets
