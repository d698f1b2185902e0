import Tracemark.Interval

/-! Edit scripts between the lines of a document and the lines it was turned into.

A script reads as how to turn the mutated lines back into the source lines: equal lines stay, a
replacement has lines on both sides, a deletion drops injected lines, and an insertion brings back
dropped ones. A script that is a partition covers both sides in order, without gap or overlap.
-/

set_option autoImplicit false

namespace Tracemark.Alignment

inductive EditKind where
  | equal
  | replace
  | delete
  | insert
  deriving DecidableEq, Repr

structure EditOp where
  kind : EditKind
  source : Interval
  mutated : Interval
  deriving DecidableEq, Repr

abbrev EditScript := List EditOp

namespace EditOp

structure Forward (op : EditOp) : Prop where
  source : op.source.start ≤ op.source.stop
  mutated : op.mutated.start ≤ op.mutated.stop

def fits (op : EditOp) : Bool :=
  match op.kind with
  | .equal => op.source.length = op.mutated.length && !op.source.isEmpty
  | .replace => !op.source.isEmpty && !op.mutated.isEmpty
  | .delete => op.source.isEmpty && !op.mutated.isEmpty
  | .insert => !op.source.isEmpty && op.mutated.isEmpty

/-- Whether source lines stand for mutated line `line` under this operation. -/
def anchors (op : EditOp) (line : Nat) : Bool :=
  (op.kind = .equal || op.kind = .replace) && line ∈ op.mutated

def extendTo (op later : EditOp) : EditOp :=
  { op with
    source := ⟨op.source.start, later.source.stop⟩
    mutated := ⟨op.mutated.start, later.mutated.stop⟩ }

end EditOp

namespace EditScript

def covers : EditScript → (source mutated : Nat) → (sourceEnd mutatedEnd : Nat) → Bool
  | [], source, mutated, sourceEnd, mutatedEnd =>
    source = sourceEnd && mutated = mutatedEnd
  | op :: rest, source, mutated, sourceEnd, mutatedEnd =>
    op.source.start = source && op.mutated.start = mutated && op.fits &&
      covers rest op.source.stop op.mutated.stop sourceEnd mutatedEnd

/-- The script covers `sourceLength` and `mutatedLength` lines. -/
def isPartition (script : EditScript) (sourceLength mutatedLength : Nat) : Bool :=
  script.covers 0 0 sourceLength mutatedLength

/-- Join each run of operations of one kind into one, and drop those without lines. -/
def compact (script : EditScript) : EditScript :=
  (script.filter fun op => !(op.source.isEmpty && op.mutated.isEmpty)).foldr
    (fun op rest =>
      match rest with
      | next :: later => if next.kind = op.kind then op.extendTo next :: later else op :: rest
      | [] => [op])
    []

def PairsEqual {α : Type} (script : EditScript) (source mutated : List α) : Prop :=
  ∀ op ∈ script, op.kind = .equal → ∀ offset < op.source.length,
    source[op.source.start + offset]? = mutated[op.mutated.start + offset]?

end EditScript

end Tracemark.Alignment
