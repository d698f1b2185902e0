import Tracemark.Stage.Basic

/-! Front matter: a block of keys and values at the head of a document.

An entry is a key, a colon and a value. A line indented by four spaces goes on with the value of
the entry before it. The block ends at the first blank line, which goes with it, or before the
first line that is neither an entry nor a continuation.
-/

set_option autoImplicit false

namespace Tracemark

namespace FrontMatter

def isKeyChar (c : Char) : Bool := c.isAlphanum || c = '_' || c = '-'

/-- The key, in lower case, and the value of an entry line. -/
def entry? (line : Text) : Option (Text × Text) :=
  let indent := line.takeWhile (· = ' ')
  let unindented := line.dropWhile (· = ' ')
  let key := unindented.takeWhile isKeyChar
  match unindented.dropWhile isKeyChar with
  | ':' :: rest =>
    let value := Text.trimStart rest
    if indent.length ≤ 3 ∧ key ≠ [] ∧ '\n' ∉ value then
      some (key.map Char.toLower, Text.trim value)
    else none
  | _ => none

def continuation? (line : Text) : Option Text :=
  let indent := line.takeWhile (· = ' ')
  let value := line.dropWhile (· = ' ')
  if 4 ≤ indent.length ∧ '\n' ∉ value then some (Text.trim value) else none

/-- Read the lines of a block. `key` is the key of the entry above, and `consumed` the number of
lines read before. Gives the entries and the number of lines that belong to the block. -/
def read (metadata : Metadata) (key : Option Text) (consumed : Nat) :
    List Text → Metadata × Nat
  | [] => (metadata, consumed)
  | line :: rest =>
    if line.isBlank then (metadata, if consumed = 0 then 0 else consumed + 1)
    else
      match entry? line, continuation? line, key with
      | some (key, value), _, _ => read (metadata.insert key value) (some key) (consumed + 1) rest
      | none, some value, some key =>
        let whole := ((metadata.get? key).getD []) ++ '\n' :: value
        read (metadata.insert key whole) (some key) (consumed + 1) rest
      | none, _, _ => (metadata, consumed)

end FrontMatter

def Stage.frontMatter : Stage where
  name := "front_matter"
  run session lines :=
    let (metadata, consumed) := FrontMatter.read session.metadata none 0 lines
    ({ session with metadata }, lines.drop consumed)

end Tracemark
