import Tracemark.Alignment.Snake

/-! Tidying a list of steps by sliding edits along equal lines.

An insertion that stands after equal lines may stand before them just as well when its last lines
are the same as theirs. Each edit slides up as far as it can, then down as far as it can, and joins
the edits of its kind that it meets. Edits of the other kind change places with it.

Where a step counts no lines on a side, its place on that side is only a note: changing places and
joining leave it as it was.
-/

set_option autoImplicit false

namespace Tracemark.Alignment

inductive Change where
  | equal
  | delete
  | insert
  deriving DecidableEq, Repr

/-- One change of a run of lines, with its places in both sequences. -/
structure Step where
  change : Change
  old : Nat
  new : Nat
  size : Nat
  deriving DecidableEq, Repr

namespace Step

def grow (step : Step) (count : Nat) : Step := { step with size := step.size + count }

def growBack (step : Step) (count : Nat) : Step :=
  { step with old := step.old - count, new := step.new - count, size := step.size + count }

def shrink (step : Step) (count : Nat) : Step := { step with size := step.size - count }

def shrinkFront (step : Step) (count : Nat) : Step :=
  { step with old := step.old + count, new := step.new + count, size := step.size - count }

def moveUp (step : Step) (count : Nat) : Step :=
  { step with old := step.old - count, new := step.new - count }

def moveDown (step : Step) (count : Nat) : Step :=
  { step with old := step.old + count, new := step.new + count }

variable {α : Type}

def oldPart (old : List α) (step : Step) : List α :=
  if step.change = .insert then [] else (old.drop step.old).take step.size

def newPart (new : List α) (step : Step) : List α :=
  if step.change = .delete then [] else (new.drop step.new).take step.size

end Step

/-- A place in a list of steps. The steps before it are listed from the nearest on. -/
structure Cursor where
  before : List Step
  here : Step
  after : List Step
  deriving DecidableEq, Repr

/-- The sum of the sizes of steps and of their number: no slide takes more rounds. -/
def weight : List Step → Nat
  | [] => 0
  | step :: rest => step.size + 1 + weight rest

namespace Cursor

variable {α : Type} [DecidableEq α] (old new : List α)

/-- The steps that follow once the step at the cursor has moved up over `count` equal lines. -/
def lengthenAfter (above here : Step) (count : Nat) (after : List Step) : List Step :=
  let fresh : Step :=
    ⟨.equal, above.old + above.size - count, here.new + here.size - count, count⟩
  match after with
  | next :: later => if next.change = .equal then next.growBack count :: later else fresh :: after
  | [] => [fresh]

def lengthenBefore (below here : Step) (count : Nat) (before : List Step) : List Step :=
  let fresh : Step := ⟨.equal, below.old, here.new, count⟩
  match before with
  | nearest :: earlier =>
    if nearest.change = .equal then nearest.grow count :: earlier else fresh :: before
  | [] => [fresh]

def slideUp : (rounds : Nat) → Cursor → Cursor
  | 0, cursor => cursor
  | _ + 1, ⟨[], here, after⟩ => ⟨[], here, after⟩
  | rounds + 1, ⟨above :: before, here, after⟩ =>
    if above.change = .equal then
      match commonSuffix (above.oldPart old) (here.newPart new) with
      | 0 =>
        if above.size = 0 then slideUp rounds ⟨before, here, after⟩
        else ⟨above :: before, here, after⟩
      | count + 1 =>
        let shrunk := above.shrink (count + 1)
        slideUp rounds
          ⟨if shrunk.size = 0 then before else shrunk :: before, here.moveUp (count + 1),
            lengthenAfter above here (count + 1) after⟩
    else if above.change = here.change then
      slideUp rounds ⟨before, above.grow here.size, after⟩
    else slideUp rounds ⟨before, here, above :: after⟩

def slideDown : (rounds : Nat) → Cursor → Cursor
  | 0, cursor => cursor
  | _ + 1, ⟨before, here, []⟩ => ⟨before, here, []⟩
  | rounds + 1, ⟨before, here, below :: after⟩ =>
    if below.change = .equal then
      match commonPrefix (below.oldPart old) (here.newPart new) with
      | 0 =>
        if below.size = 0 then slideDown rounds ⟨before, here, after⟩
        else ⟨before, here, below :: after⟩
      | count + 1 =>
        let shrunk := below.shrinkFront (count + 1)
        slideDown rounds
          ⟨lengthenBefore below here (count + 1) before, here.moveDown (count + 1),
            if shrunk.size = 0 then after else shrunk :: after⟩
    else if below.change = here.change then
      slideDown rounds ⟨before, here.grow below.size, after⟩
    else slideDown rounds ⟨below :: before, here, after⟩

/-- Up as far as possible, then down as far as possible. -/
def settle (cursor : Cursor) : Cursor :=
  let top := slideUp old new (weight cursor.before) cursor
  slideDown old new (weight top.after) top

end Cursor

def settleAll {α : Type} [DecidableEq α] (old new : List α) (change : Change) :
    (rounds : Nat) → (before after : List Step) → List Step
  | _, before, [] => before.reverse
  | 0, before, after => before.reverse ++ after
  | rounds + 1, before, here :: after =>
    if here.change = change then
      let settled := Cursor.settle old new ⟨before, here, after⟩
      settleAll old new change rounds (settled.here :: settled.before) settled.after
    else settleAll old new change rounds (here :: before) after

def tidy {α : Type} [DecidableEq α] (old new : List α) (steps : List Step) : List Step :=
  let deleted := settleAll old new .delete (weight steps) [] steps
  settleAll old new .insert (weight deleted) [] deleted

end Tracemark.Alignment
