import Tracemark.Alignment.BlankAnchor
import Tracemark.Alignment.Diff
import Tracemark.Alignment.Sequential
import Tracemark.Offsets.Failure
import Tracemark.Text.Blank

/-! From mutated lines back to source lines.

A restore map is an edit script with what it takes to say where a run of mutated lines comes from.
Injected lines at the edges of the run are left out first. An edge in equal lines is located
exactly. An edge in a replacement goes to the edge of its source lines and counts as approximate.
-/

set_option autoImplicit false

namespace Tracemark.Alignment

open Tracemark.Offsets (Failure)

inductive Strategy where
  /-- A line diff, which also tolerates changed lines. -/
  | diff
  /-- One scan forward, for lines that were dropped or injected but not changed. -/
  | sequential
  deriving DecidableEq, Repr

structure RestoreMap where
  script : EditScript
  /-- An end takes in the dropped lines that follow it. -/
  foldContinuations : Bool
  /-- Which source lines are blank. -/
  sourceBlank : List Bool
  /-- Which mutated lines are blank. -/
  mutatedBlank : List Bool
  deriving DecidableEq, Repr

structure Location where
  source : Interval
  startAccurate : Bool
  endAccurate : Bool
  /-- The source lines that the start could stand for. -/
  startWindow : Interval
  deriving DecidableEq, Repr

/-- What lines are compared by: all blank lines are alike, and a carriage return at the end does not
count. -/
def lineKey (line : Text) : Text := if line.isBlank then [] else line.dropReturn

/-- The first line of every run of blank lines that is followed by another line. `line` is the
number of the first flag, and `run` the start of the blank run that leads up to it. -/
def blockBreaks (line : Nat) (run : Option Nat) : List Bool → List Nat
  | [] => []
  | true :: rest => blockBreaks (line + 1) (some (run.getD line)) rest
  | false :: rest => run.toList ++ blockBreaks (line + 1) none rest

def breaksIn (blank : List Bool) (lines : Interval) : List Nat :=
  blockBreaks lines.start none ((lines.slice? blank).getD [])

namespace RestoreMap

def align (strategy : Strategy) (source mutated : List Text) (differ : Differ := .shortest) :
    RestoreMap :=
  let sourceKeys := source.map lineKey
  let mutatedKeys := mutated.map lineKey
  { script :=
      match strategy with
      | .diff => (differ.script sourceKeys mutatedKeys).demoteBlankAnchors mutatedKeys
      | .sequential => sequential sourceKeys mutatedKeys
    foldContinuations := strategy = .sequential
    sourceBlank := sourceKeys.map List.isEmpty
    mutatedBlank := mutatedKeys.map List.isEmpty }

/-- The first line from `line` on that was not injected. -/
def skipInjected (script : EditScript) : (rounds line : Nat) → Nat
  | 0, line => line
  | rounds + 1, line =>
    match script.find? fun op => op.kind = .delete && line ∈ op.mutated with
    | some op => skipInjected script rounds op.mutated.stop
    | none => line

def dropInjected (script : EditScript) : (rounds stop : Nat) → Nat
  | 0, stop => stop
  | rounds + 1, stop =>
    match script.find? fun op =>
        op.kind = .delete && op.mutated.start < stop && stop ≤ op.mutated.stop with
    | some op => dropInjected script rounds op.mutated.start
    | none => stop

/-- The source end of a run that stops at mutated line `stop` inside the replacement `op`. -/
def approximateEnd (map : RestoreMap) (op : EditOp) (sourceStart stop : Nat) : Nat :=
  -- The mutated lines from `stop` on belong to later blocks, and each break among them gives up one
  -- break on the source side.
  let later := (breaksIn map.mutatedBlank ⟨stop, op.mutated.stop⟩).length
  let breaks := breaksIn map.sourceBlank ⟨sourceStart, op.source.stop⟩
  if later = 0 ∨ breaks.length < later then op.source.stop
  else ((breaks[breaks.length - later]?).filter (sourceStart < ·)).getD op.source.stop

/-- The end of the dropped lines that follow an operation, among the operations after it. -/
def endOfDropped (sourceStop : Nat) (after : EditScript) : Nat :=
  let dropped := after.takeWhile fun op => op.kind = .insert || op.kind = .delete
  (dropped.filter (·.kind = .insert)).foldl (fun stop op => max stop op.source.stop) sourceStop

def locate (map : RestoreMap) (lines : Interval) : Except Failure Location := do
  let rounds := map.script.length
  let start := skipInjected map.script rounds lines.start
  let stop := dropInjected map.script rounds lines.stop
  if stop ≤ start then throw (.noMapping lines)
  let some first := map.script.find? (·.anchors start) | throw (.noMapping lines)
  let startAccurate := first.kind = .equal
  let sourceStart :=
    if startAccurate then first.source.start + (start - first.mutated.start)
    else first.source.start
  let startWindow :=
    if startAccurate then ⟨sourceStart, sourceStart + 1⟩ else first.source
  let last :: after := map.script.dropWhile (!·.anchors (stop - 1)) | throw (.noMapping lines)
  let endAccurate := last.kind = .equal
  let reached :=
    if endAccurate then last.source.start + (stop - last.mutated.start)
    else map.approximateEnd last sourceStart stop
  let sourceStop :=
    if map.foldContinuations ∧ stop = last.mutated.stop then endOfDropped reached after
    else reached
  if sourceStop ≤ sourceStart then throw (.noMapping lines)
  return {
    source := ⟨sourceStart, sourceStop⟩
    startAccurate := startAccurate
    endAccurate := endAccurate
    startWindow }

end RestoreMap

end Tracemark.Alignment
