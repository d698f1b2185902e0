import Tracemark.Offsets.Failure
import Tracemark.Text.Blank
import Tracemark.Text.Octets

/-! The octets of each line of a document.

An index is made from the lines before anything has changed them. The line feed between two lines
belongs to neither; an offset that falls on it is counted to the line it ends.
-/

set_option autoImplicit false

namespace Tracemark.Offsets

structure LineRecord where
  text : Text
  start : Nat
  stop : Nat
  deriving DecidableEq, Repr

def LineRecord.isBlank (line : LineRecord) : Bool := line.text.isBlank

structure LineIndex where
  records : List LineRecord
  /-- The lines put back together. -/
  document : Text
  deriving DecidableEq, Repr

namespace LineIndex

def recordsFrom (start : Nat) : List Text → List LineRecord
  | [] => []
  | line :: rest =>
    let stop := start + line.octets
    ⟨line, start, stop⟩ :: recordsFrom (stop + 1) rest

def build (lines : List Text) : LineIndex := ⟨recordsFrom 0 lines, Text.joinLines lines⟩

def size (index : LineIndex) : Nat := index.records.length

def isEmpty (index : LineIndex) : Bool := index.records.isEmpty

def get? (index : LineIndex) (line : Nat) : Option LineRecord := index.records[line]?

def documentLength (index : LineIndex) : Nat :=
  (index.records.getLast?.map (·.stop)).getD 0

def record (index : LineIndex) (line : Nat) : Except Failure LineRecord :=
  match index.get? line with
  | some record => .ok record
  | none => .error (.lineOutOfRange line index.size)

def octetRange (index : LineIndex) (lines : Interval) : Except Failure Interval := do
  if lines.isEmpty then throw (.noMapping lines)
  let first ← index.record lines.start
  let last ← index.record (lines.stop - 1)
  return ⟨first.start, last.stop⟩

def lineAt? (index : LineIndex) (offset : Nat) : Option Nat :=
  if index.documentLength < offset then none
  else
    -- Line starts increase, so the line is the last of those that start no later.
    match (index.records.takeWhile (·.start ≤ offset)).length with
    | 0 => none
    | count + 1 => some count

def text? (index : LineIndex) (range : Interval) : Option Text :=
  index.document.slice? range.start range.stop

theorem length_recordsFrom (start : Nat) (lines : List Text) :
    (recordsFrom start lines).length = lines.length := by
  induction lines generalizing start with
  | nil => rfl
  | cons line rest ih => simp [recordsFrom, ih]

theorem size_build (lines : List Text) : (build lines).size = lines.length :=
  length_recordsFrom 0 lines

end LineIndex

end Tracemark.Offsets
