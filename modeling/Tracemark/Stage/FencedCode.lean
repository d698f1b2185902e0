import Tracemark.Stage.Basic
import Tracemark.Text.Word

/-! Fenced code.

A fence is a line of at least three backticks or tildes, perhaps with the name of a language. It
is closed by a later line of at least as many of the same mark. The lines between are put into the
stash and a placeholder stands in for them, kept apart from the lines around it by empty lines. A
fence that is never closed is an ordinary line.
-/

set_option autoImplicit false

namespace Tracemark

namespace Fence

/-- An opening fence: its mark, how many there are of it, and the language if it names one. -/
structure Opening where
  mark : Char
  width : Nat
  language : Option Text
  deriving DecidableEq, Repr

def isLanguageChar (c : Char) : Bool :=
  Text.isWordChar c || c = '+' || c = '#' || c = '.' || c = '-'

def opening? (line : Text) : Option Opening :=
  match line with
  | [] => none
  | mark :: _ =>
    let width := (line.takeWhile (· = mark)).length
    let rest := (line.dropWhile (· = mark)).dropWhile (· = ' ')
    let language := rest.takeWhile isLanguageChar
    let trailing := rest.dropWhile isLanguageChar
    if (mark = '`' ∨ mark = '~') ∧ 3 ≤ width ∧ trailing.all (· = ' ') then
      some ⟨mark, width, if language = [] then none else some language⟩
    else none

def Opening.closedBy (opening : Opening) (line : Text) : Bool :=
  let marks := line.trimEnd
  opening.width ≤ marks.length && marks.all (· = opening.mark)

def Opening.body? (opening : Opening) (lines : List Text) : Option (List Text × List Text) :=
  match lines.dropWhile (!opening.closedBy ·) with
  | [] => none
  | _ :: after => some (lines.takeWhile (!opening.closedBy ·), after)

/-- An empty line next to a line that has something on it. -/
def padding (neighbour : Option Text) : List Text :=
  match neighbour with
  | some (_ :: _) => [[]]
  | _ => []

theorem length_lt_of_body? {opening : Opening} {lines body after : List Text}
    (closed : opening.body? lines = some (body, after)) : after.length < lines.length := by
  unfold Opening.body? at closed
  split at closed
  · cases closed
  · next fence rest same =>
    have shorter : (fence :: rest).length ≤ lines.length :=
      same ▸ (List.dropWhile_sublist _).length_le
    cases closed
    rw [List.length_cons] at shorter
    exact shorter

/-- Put the code of all fences into the stash. `previous` is the line written last. -/
def stashAll (stash : Stash) (previous : Option Text) : List Text → Stash × List Text
  | [] => (stash, [])
  | line :: rest =>
    match opening? line with
    | none =>
      let (stash, written) := stashAll stash (some line) rest
      (stash, line :: written)
    | some opening =>
      match closed : opening.body? rest with
      | none =>
        let (stash, written) := stashAll stash (some line) rest
        (stash, line :: written)
      | some (body, after) =>
        have : after.length < rest.length := length_lt_of_body? closed
        let (placeholder, stash) := stash.store ⟨opening.language, Text.joinLines body⟩
        let framed := padding previous ++ placeholder :: padding after.head?
        let (stash, written) := stashAll stash framed.getLast? after
        (stash, framed ++ written)
termination_by lines => lines.length

end Fence

def Stage.fencedCode : Stage where
  name := "fenced_code"
  run session lines :=
    let (stash, written) := Fence.stashAll session.stash none lines
    ({ session with stash }, written)

end Tracemark
