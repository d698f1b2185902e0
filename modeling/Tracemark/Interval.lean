/-! Half-open runs of positions.

An interval holds the positions from its start up to its stop. It counts lines of a document or
octets of a text, as its user says. Reversed bounds make an interval without positions.
-/

set_option autoImplicit false

namespace Tracemark

structure Interval where
  start : Nat
  stop : Nat
  deriving DecidableEq, Repr

namespace Interval

def length (run : Interval) : Nat := run.stop - run.start

def isEmpty (run : Interval) : Bool := run.stop ≤ run.start

instance : Membership Nat Interval where
  mem run position := run.start ≤ position ∧ position < run.stop

instance (position : Nat) (run : Interval) : Decidable (position ∈ run) :=
  inferInstanceAs (Decidable (run.start ≤ position ∧ position < run.stop))

@[simp] theorem mem_iff {position : Nat} {run : Interval} :
    position ∈ run ↔ run.start ≤ position ∧ position < run.stop := Iff.rfl

def toList (run : Interval) : List Nat := List.range' run.start run.length

/-- The entries of a list at the positions; none when the bounds are reversed or lie outside. -/
def slice? {α : Type} (run : Interval) (entries : List α) : Option (List α) :=
  if run.start ≤ run.stop ∧ run.stop ≤ entries.length then
    some ((entries.drop run.start).take run.length)
  else none

theorem isEmpty_iff {run : Interval} : run.isEmpty = true ↔ run.stop ≤ run.start := by
  simp [isEmpty]

theorem mem_toList {position : Nat} {run : Interval} :
    position ∈ run.toList ↔ position ∈ run := by
  simp only [toList, List.mem_range'_1, length, mem_iff]
  omega

end Interval

end Tracemark
