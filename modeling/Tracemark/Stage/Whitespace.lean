import Tracemark.Stage.Basic

/-! Uniform white space: no carriage return at the end of a line, nothing on a blank line, and
spaces for tabs.
-/

set_option autoImplicit false

namespace Tracemark

/-- The columns between two tab stops, and the spaces that indent code. -/
def tabWidth : Nat := 4

namespace Stage

/-- Each tab as spaces up to the next tab stop, for text that starts at `column`. -/
def expandTabs (column : Nat) : Text → Text
  | [] => []
  | c :: rest =>
    if c = '\t' then
      let width := tabWidth - column % tabWidth
      List.replicate width ' ' ++ expandTabs (column + width) rest
    else c :: expandTabs (column + 1) rest

def normalizeLine (line : Text) : Text :=
  let line := line.dropReturn
  if line.isBlank then [] else expandTabs 0 line

def normalizeWhitespace : Stage := .ofLines "normalize_whitespace" (List.map normalizeLine)

end Stage

end Tracemark
