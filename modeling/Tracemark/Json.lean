import Tracemark.Text.Numeral

/-! JSON output over several lines.

Each entry of a list or an object stands on a line of its own, two spaces further in than what
holds it. What is empty stays on one line. Text is written as it is but for quotes, backslashes
and controls.
-/

set_option autoImplicit false

namespace Tracemark

inductive Json where
  | null
  | bool (value : Bool)
  | number (value : Nat)
  | string (text : Text)
  | list (items : List Json)
  | object (fields : List (String × Json))

namespace Json

def escapeChar (c : Char) : Text :=
  match c with
  | '"' => ['\\', '"']
  | '\\' => ['\\', '\\']
  | '\n' => ['\\', 'n']
  | '\r' => ['\\', 'r']
  | '\t' => ['\\', 't']
  | '\x08' => ['\\', 'b']
  | '\x0c' => ['\\', 'f']
  | c =>
    if c < ' ' then
      let code := Nat.toDigits 16 c.toNat
      '\\' :: 'u' :: List.replicate (4 - code.length) '0' ++ code
    else [c]

def quote (text : Text) : Text := '"' :: text.flatMap escapeChar ++ ['"']

def newLine (depth : Nat) : Text := '\n' :: List.replicate (2 * depth) ' '

mutual

def write (depth : Nat) : Json → Text
  | null => "null".toList
  | bool value => Text.ofBool value
  | number value => Text.ofNat value
  | string text => quote text
  | list [] => "[]".toList
  | list (first :: rest) =>
    '[' :: newLine (depth + 1) ++ write (depth + 1) first ++ writeItems (depth + 1) rest ++
      newLine depth ++ [']']
  | object [] => ['\x7b', '\x7d']
  | object ((name, value) :: rest) =>
    '\x7b' :: newLine (depth + 1) ++ quote name.toList ++ [':', ' '] ++ write (depth + 1) value ++
      writeFields (depth + 1) rest ++ newLine depth ++ ['\x7d']

def writeItems (depth : Nat) : List Json → Text
  | [] => []
  | item :: rest => ',' :: newLine depth ++ write depth item ++ writeItems depth rest

def writeFields (depth : Nat) : List (String × Json) → Text
  | [] => []
  | (name, value) :: rest =>
    ',' :: newLine depth ++ quote name.toList ++ [':', ' '] ++ write depth value ++
      writeFields depth rest

end

def render (value : Json) : Text := write 0 value

def optional {α : Type} (encode : α → Json) : Option α → Json
  | some value => encode value
  | none => null

end Json

end Tracemark
