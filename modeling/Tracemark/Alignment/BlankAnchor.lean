import Tracemark.Alignment.EditScript
import Tracemark.Text.Basic

/-! Blank lines are no anchors.

Between two edits a run of equal blank lines says nothing about where the lines around it come from.
Such a run is folded, with both neighbours, into one replacement. A replacement also takes in every
edit that follows it directly.
-/

set_option autoImplicit false

namespace Tracemark.Alignment

/-- An equal run whose mutated lines are all blank. A blank line has an empty key. -/
def EditOp.isBlankRun (mutated : List Text) (op : EditOp) : Bool :=
  op.kind = .equal && ((op.mutated.slice? mutated).getD []).all List.isEmpty

def EditOp.bridge (first last : EditOp) : EditOp := { first.extendTo last with kind := .replace }

namespace EditScript

/-- Put an operation behind the others, which are listed from the last on. -/
def absorb (done : EditScript) (op : EditOp) : EditScript :=
  match done with
  | last :: earlier =>
    if last.kind = .replace ∧ op.kind ≠ .equal then last.extendTo op :: earlier else op :: done
  | [] => [op]

def foldBlankRuns (mutated : List Text) : (done todo : EditScript) → EditScript
  | done, [] => done.reverse
  | done, [op] => (absorb done op).reverse
  | [], op :: next :: rest => foldBlankRuns mutated [op] (next :: rest)
  | last :: earlier, op :: next :: rest =>
    if op.isBlankRun mutated ∧ last.kind ≠ .equal ∧ next.kind ≠ .equal then
      -- The bridge has taken in the next operation as well.
      foldBlankRuns mutated (last.bridge next :: earlier) rest
    else foldBlankRuns mutated (absorb (last :: earlier) op) (next :: rest)

/-- The script without equal runs of blank lines between two edits. -/
def demoteBlankAnchors (mutated : List Text) (script : EditScript) : EditScript :=
  foldBlankRuns mutated [] script

end EditScript

end Tracemark.Alignment
