import Tracemark.Alignment.Differ
import Tracemark.Alignment.Slide

/-! A shortest edit script between two sequences.

The sequences are cut at the middle of a shortest path, and each half is treated alike. The steps
are tidied, and each run of deletions and insertions between equal lines becomes one operation.
-/

set_option autoImplicit false

namespace Tracemark.Alignment

variable {α : Type} [DecidableEq α]

def Step.run (change : Change) (old new size : Nat) : List Step :=
  if size = 0 then [] else [⟨change, old, new, size⟩]

/-- Steps of a shortest path between two sequences that start at the given places. -/
def shortestPath : (depth : Nat) → (oldAt newAt : Nat) → (old new : List α) → List Step
  | 0, oldAt, newAt, old, new =>
    Step.run .delete oldAt newAt old.length ++ Step.run .insert oldAt newAt new.length
  | depth + 1, oldAt, newAt, old, new =>
    let head := commonPrefix old new
    let tail := commonSuffix (old.drop head) (new.drop head)
    let oldCore := (old.drop head).take (old.length - head - tail)
    let newCore := (new.drop head).take (new.length - head - tail)
    let oldFrom := oldAt + head
    let newFrom := newAt + head
    let core :=
      match oldCore, newCore with
      | [], [] => []
      | _, [] => Step.run .delete oldFrom newFrom oldCore.length
      | [], _ => Step.run .insert oldFrom newFrom newCore.length
      | _, _ =>
        -- Half of a path that has edits is shorter than the whole, so the depth need not exceed the
        -- number of entries.
        match middleSnake? oldCore newCore with
        | some (x, y) =>
          shortestPath depth oldFrom newFrom (oldCore.take x) (newCore.take y) ++
            shortestPath depth (oldFrom + x) (newFrom + y) (oldCore.drop x) (newCore.drop y)
        | none =>
          Step.run .delete oldFrom newFrom oldCore.length ++
            Step.run .insert oldFrom newFrom newCore.length
    Step.run .equal oldAt newAt head ++ core ++
      Step.run .equal (oldFrom + oldCore.length) (newFrom + newCore.length) tail

def gather (change : Change) (run : List Step) : Option Step :=
  match run.filter (·.change = change) with
  | [] => none
  | first :: rest => some (rest.foldl (fun whole step => whole.grow step.size) first)

/-- The operation of a run of steps that are all equal lines or all edits. Mutated lines are the old
side and source lines the new one. -/
def operation? (run : List Step) : Option EditOp :=
  match gather .equal run, gather .delete run, gather .insert run with
  | some same, _, _ =>
    some ⟨.equal, ⟨same.new, same.new + same.size⟩, ⟨same.old, same.old + same.size⟩⟩
  | none, some gone, some fresh =>
    some ⟨.replace, ⟨fresh.new, fresh.new + fresh.size⟩, ⟨gone.old, gone.old + gone.size⟩⟩
  | none, some gone, none =>
    some ⟨.delete, ⟨gone.new, gone.new⟩, ⟨gone.old, gone.old + gone.size⟩⟩
  | none, none, some fresh =>
    some ⟨.insert, ⟨fresh.new, fresh.new + fresh.size⟩, ⟨fresh.old, fresh.old⟩⟩
  | none, none, none => none

/-- One operation for each maximal run of equal lines and each maximal run of edits. -/
def regroup (steps : List Step) : EditScript :=
  (steps.splitBy fun step next => (step.change == .equal) == (next.change == .equal)).filterMap
    operation?

def diff (source mutated : List α) : EditScript :=
  let path := shortestPath (mutated.length + source.length + 1) 0 0 mutated source
  regroup (tidy mutated source path)

theorem forward_operation? {run : List Step} {op : EditOp} (made : operation? run = some op) :
    op.Forward := by
  unfold operation? at made
  split at made <;> cases made <;> exact ⟨by simp, by simp⟩

theorem forward_diff {source mutated : List α} : ∀ op ∈ diff source mutated, op.Forward := by
  intro op member
  obtain ⟨run, -, made⟩ := List.mem_filterMap.1 member
  exact forward_operation? made

def Differ.shortest : Differ := ⟨diff, fun _ _ => forward_diff⟩

end Tracemark.Alignment
