import Tracemark.Alignment.RestoreMap
import Tracemark.Offsets.Origin
import Tracemark.Offsets.Guard
import Tracemark.Offsets.LineIndex

/-! Following blocks back to the source document.

A tracker knows the source lines, the lines they were turned into, and how far blocks have been
claimed. A block claims the next run of mutated lines that it was built from. A claimed run is
traced to octets of the source, and the source lines under it then count as used.
-/

set_option autoImplicit false

namespace Tracemark.Offsets

open Tracemark.Alignment (Differ RestoreMap Strategy Location)

structure Aligned where
  mutated : List Text
  restore : RestoreMap
  deriving DecidableEq, Repr

structure Tracker where
  index : LineIndex
  alignment : Option Aligned := none
  /-- Whether an element has been given the source line. -/
  used : List Bool
  guard : Guard := .idle
  /-- The last mutated line that a block has claimed. -/
  lastClaimed : Option Nat := none
  /-- The last element that was stamped on being made. -/
  lastEmitted : Option NodeId := none
  deriving DecidableEq, Repr

/-- Take the first run of lines that are lines of a block, each of them as often as the block has
it. `run` holds the first and the last line taken so far. -/
def claimRun (run : Option (Nat × Nat)) (wanted : List Text) :
    List (Nat × Text) → Option (Nat × Nat)
  | [] => run
  | (number, line) :: rest =>
    if line ∈ wanted then
      claimRun (some ((run.map (·.1)).getD number, number)) (wanted.erase line) rest
    else
      match run with
      | some taken => some taken
      | none => claimRun none wanted rest

namespace Tracker

def ofLines (source : List Text) : Tracker :=
  { index := .build source, used := source.map fun _ => false }

def align (tracker : Tracker) (strategy : Strategy) (mutated : List Text)
    (differ : Differ := .shortest) : Tracker :=
  let source := tracker.index.records.map (·.text)
  { tracker with alignment := some ⟨mutated, RestoreMap.align strategy source mutated differ⟩ }

def mutatedLines (tracker : Tracker) : List Text :=
  (tracker.alignment.map (·.mutated)).getD []

def restoreMap? (tracker : Tracker) : Option RestoreMap := tracker.alignment.map (·.restore)

def isUsed (tracker : Tracker) (line : Nat) : Bool := (tracker.used[line]?).getD false

def unclaimed (tracker : Tracker) : List (Nat × Text) :=
  let first := (tracker.lastClaimed.map (· + 1)).getD 0
  ((tracker.mutatedLines.zipIdx.map fun (line, number) => (number, line)).drop first).filter
    fun (_, line) => !line.isBlank

def wants (tracker : Tracker) (block : Text) : Bool :=
  !tracker.guard.isPrerendering && tracker.unclaimed.any fun (_, line) => line ∈ block.lines

/-- The lines a block claims, and the tracker behind them. Blank lines neither start nor end a run,
and a line that the block has once is claimed once. -/
def claim (tracker : Tracker) (block : Text) : Option (Interval × Tracker) :=
  (claimRun none block.lines tracker.unclaimed).map fun (first, last) =>
    (⟨first, last + 1⟩, { tracker with lastClaimed := some last })

def placed? (tracker : Tracker) (location : Location) : Option Interval :=
  let lines := location.source
  if location.startAccurate then some lines
  else
    -- An approximate start moves on to the first free line within what it could stand for.
    let window : Interval := ⟨lines.start, min location.startWindow.stop lines.stop⟩
    let free (line : Nat) : Bool :=
      !tracker.isUsed line && !((tracker.index.get? line).map LineRecord.isBlank).getD false
    (window.toList.find? free).map fun start => ⟨start, lines.stop⟩

def use (tracker : Tracker) (lines : Interval) : Tracker :=
  { tracker with used := tracker.used.mapIdx fun line flag => flag || line ∈ lines }

def annotate (tracker : Tracker) (span : Interval) : Except Failure (Origin × Tracker) := do
  let some restore := tracker.restoreMap? | throw (.noMapping span)
  let location ← restore.locate span
  let some lines := tracker.placed? location | throw (.noMapping span)
  let octets ← tracker.index.octetRange lines
  return (⟨octets.start, octets.stop, location.startAccurate, location.endAccurate⟩,
    tracker.use lines)

/-- The source text of an origin, empty where its range is no slice of the document. -/
def sourceText (tracker : Tracker) (origin : Origin) : Text :=
  (tracker.index.text? ⟨origin.start, origin.stop⟩).getD []

end Tracker

end Tracemark.Offsets
