import Tracemark.Alignment.EditScript
import Tracemark.Text.Basic

/-! Alignment by one scan forward.

Each mutated line is bound to the next source line with the same key, so the source lines in
between count as dropped. A blank line is bound only when the very next source line is blank; it
never searches ahead. A mutated line that is not bound counts as injected.
-/

set_option autoImplicit false

namespace Tracemark.Alignment

/-- How many of the remaining source lines a mutated line skips. -/
def skipped? (key : Text) (remaining : List Text) : Option Nat :=
  -- A blank line is bound in place or not at all.
  if key = [] then if remaining.head? = some [] then some 0 else none
  else remaining.findIdx? (· = key)

/-- Single operations for the mutated lines from `line` on, while the source lines from `cursor`
on are `remaining`. -/
def bindLines : (cursor line : Nat) → (remaining mutated : List Text) → EditScript
  | cursor, line, remaining, [] => [⟨.insert, ⟨cursor, cursor + remaining.length⟩, ⟨line, line⟩⟩]
  | cursor, line, remaining, key :: rest =>
    match skipped? key remaining with
    | some skipped =>
      let bound := cursor + skipped
      ⟨.insert, ⟨cursor, bound⟩, ⟨line, line⟩⟩ ::
        ⟨.equal, ⟨bound, bound + 1⟩, ⟨line, line + 1⟩⟩ ::
        bindLines (bound + 1) (line + 1) (remaining.drop (skipped + 1)) rest
    | none =>
      ⟨.delete, ⟨cursor, cursor⟩, ⟨line, line + 1⟩⟩ :: bindLines cursor (line + 1) remaining rest

def sequential (source mutated : List Text) : EditScript :=
  EditScript.compact (bindLines 0 0 source mutated)

end Tracemark.Alignment
