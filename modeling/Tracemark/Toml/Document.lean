import Tracemark.Toml.Quoted
import Tracemark.Toml.Table

/-! Reading TOML documents.

A document is read line by line: blank lines, comments, headers, and keys with values. Arrays and
tables in braces may stand inside each other to a depth of 79. The grammar is that of TOML 1.0.
-/

set_option autoImplicit false

namespace Tracemark.Toml

namespace Document

/-- How many arrays and tables may stand inside each other, and how many keys one dotted key may
have. -/
def depthLimit : Nat := 79

def isBareKeyChar (c : Char) : Bool := c.isAlphanum || c = '_' || c = '-'

def skipSpace (text : Text) : Text := text.dropWhile Quoted.isSpace

def simpleKey : Reader Text
  | '"' :: rest => Quoted.basic rest
  | '\'' :: rest => Quoted.literal rest
  | text =>
    let key := text.takeWhile isBareKeyChar
    if key = [] then none else some (key, text.dropWhile isBareKeyChar)

def dottedKey : (limit : Nat) → Reader (List Text)
  | 0, _ => none
  | limit + 1, text => do
    let (key, rest) ← simpleKey (skipSpace text)
    match skipSpace rest with
    | '.' :: rest =>
      let (keys, rest) ← dottedKey limit rest
      return (key :: keys, rest)
    | rest => return ([key], rest)

/-- A dotted key as the path to a table and a key in it. -/
def key : Reader (List Text × Text) := fun text => do
  let (keys, rest) ← dottedKey depthLimit text
  return ((keys.dropLast, ← keys.getLast?), rest)

def afterComment : Text → Option Text
  | [] => some []
  | '\n' :: rest => some ('\n' :: rest)
  | '\r' :: '\n' :: rest => some ('\n' :: rest)
  | c :: rest => if Quoted.isPlain c then afterComment rest else none

def lineEnd (text : Text) : Option Text :=
  match skipSpace text with
  | [] => some []
  | '\n' :: rest => some rest
  | '\r' :: '\n' :: rest => some rest
  | '#' :: rest => (afterComment rest).map (·.drop 1)
  | _ => none

def skipFill (comment : Bool) : Text → Option Text
  | [] => some []
  | '\n' :: rest => skipFill false rest
  | '\r' :: '\n' :: rest => skipFill false rest
  | c :: rest =>
    if comment then if Quoted.isPlain c then skipFill true rest else none
    else if c = '#' then skipFill true rest
    else if Quoted.isSpace c then skipFill false rest
    else some (c :: rest)

def items (value : Reader Value) : (limit : Nat) → Reader (List Value)
  | 0, _ => none
  | limit + 1, text => do
    match ← skipFill false text with
    | ']' :: rest => return ([], rest)
    | text =>
      let (first, rest) ← value text
      match ← skipFill false rest with
      | ',' :: rest =>
        let (others, rest) ← items value limit rest
        return (first :: others, rest)
      | ']' :: rest => return ([first], rest)
      | _ => none

def pairs (value : Reader Value) : (limit : Nat) → Entries → Reader Entries
  | 0, _, _ => none
  | limit + 1, entries, text => do
    let ((path, name), rest) ← key text
    let (_, rest) ← Scalar.mark '=' rest
    let (written, rest) ← value (skipSpace rest)
    let entries ← entries.writeInline? path name written
    match skipSpace rest with
    | ',' :: rest => pairs value limit entries rest
    | '}' :: rest => return (entries, rest)
    | _ => none

def inlineTable (value : Reader Value) : Reader Entries := fun text =>
  match skipSpace text with
  | '}' :: rest => some ({}, rest)
  | _ => pairs value text.length {} text

def scalar : Reader Value
  | 't' :: 'r' :: 'u' :: 'e' :: rest => some (.boolean true, rest)
  | 'f' :: 'a' :: 'l' :: 's' :: 'e' :: rest => some (.boolean false, rest)
  | text =>
    match Quoted.string text with
    | some (string, rest) => some (.string string, rest)
    | none => (Scalar.datetime text).or (Scalar.number text)

/-- A value that holds arrays and tables to a depth. -/
def value : (depth : Nat) → Reader Value
  | 0, text => scalar text
  | depth + 1, text =>
    match text with
    | '[' :: rest =>
      (items (value depth) rest.length rest).map fun (items, rest) => (.array items, rest)
    | '\x7b' :: rest =>
      (inlineTable (value depth) rest).map fun (entries, rest) => (.table .inline entries, rest)
    | _ => scalar text

def header (repeated : Bool) : Reader Header := fun text => do
  let ((path, key), rest) ← key text
  let (_, rest) ← Scalar.mark ']' rest
  let rest ← if repeated then (Scalar.mark ']' rest).map (·.2) else some rest
  return (⟨path, key, repeated⟩, ← lineEnd rest)

def readLines : (limit : Nat) → Draft → Text → Option Draft
  | 0, _, _ => none
  | limit + 1, draft, text => do
    match skipSpace text with
    | [] => return draft
    | '\n' :: rest | '\r' :: '\n' :: rest => readLines limit draft rest
    | '#' :: rest => readLines limit draft (← lineEnd ('#' :: rest))
    | '[' :: '[' :: rest =>
      let (header, rest) ← header true rest
      readLines limit (← draft.open? header) rest
    | '[' :: rest =>
      let (header, rest) ← header false rest
      readLines limit (← draft.open? header) rest
    | text =>
      let ((path, name), rest) ← key text
      let (_, rest) ← Scalar.mark '=' rest
      let (written, rest) ← value depthLimit (skipSpace rest)
      readLines limit (← draft.write? path name written) (← lineEnd rest)

/-- The entries of a document; none if it is no TOML. A byte order mark may stand in front. -/
def read? (text : Text) : Option Entries :=
  let text := (Text.dropPrefix? ['\ufeff'] text).getD text
  (readLines (text.length + 1) {} text).bind Draft.close?

end Document

end Tracemark.Toml
