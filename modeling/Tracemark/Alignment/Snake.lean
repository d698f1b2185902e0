/-! The middle of a shortest edit path.

Two sequences span a grid. A path crosses it from corner to corner: right drops an old entry, down
takes a new one, and a diagonal step keeps an entry that both have. Diagonal `k` holds the points
whose column exceeds their row by `k`. The search follows paths from both corners, one more edit on
each side per round, and ends on the first diagonal on which they meet.

The furthest columns after `d` edits are listed for the diagonals `d, d - 2, …, -d` in this order.
-/

set_option autoImplicit false

namespace Tracemark.Alignment

variable {α : Type} [DecidableEq α]

def commonPrefix : List α → List α → Nat
  | a :: old, b :: new => if a = b then commonPrefix old new + 1 else 0
  | _, _ => 0

def commonSuffix (old new : List α) : Nat := commonPrefix old.reverse new.reverse

namespace Snake

def diagonals (edits : Nat) : List Int :=
  (List.range (edits + 1)).map fun (i : Nat) => (edits : Int) - 2 * i

/-- The better of the ways onto each diagonal below one whose furthest column is `above`: down from
the diagonal above, or right from the one below. -/
def startsBelow (above : Nat) : List Nat → List Nat
  | [] => [above]
  | column :: rest => (if column < above then above else column + 1) :: startsBelow column rest

def starts : List Nat → List Nat
  | [] => [0]
  | column :: rest => (column + 1) :: startsBelow column rest

def follow (old new : List α) (diagonal : Int) (column : Nat) : Nat :=
  if diagonal ≤ column then
    column + commonPrefix (old.drop column) (new.drop ((column : Int) - diagonal).toNat)
  else column

def reachOn? (edits : Nat) (reach : List Nat) (diagonal : Int) : Option Nat :=
  if diagonal.natAbs ≤ edits then reach[(((edits : Int) - diagonal) / 2).toNat]? else none

/-- The first diagonal on which a path meets one from the other corner, with the columns at which
its equal entries start and end there. -/
def meeting? (width : Nat) (shift : Int) (opposite : Int → Option Nat) :
    List (Int × Nat × Nat) → Option (Int × Nat × Nat)
  | [] => none
  | (diagonal, start, column) :: rest =>
    match opposite (shift - diagonal) with
    | some reached =>
      if width ≤ column + reached then some (diagonal, start, column)
      else meeting? width shift opposite rest
    | none => meeting? width shift opposite rest

/-- One round per unit of `rounds`. `ahead` and `back` are the columns reached from the two corners
with one edit less; paths from the far corner run over the reversed sequences. -/
def search (old new oldBack newBack : List α) :
    (rounds edits : Nat) → (ahead back : List Nat) → Option (Nat × Nat)
  | 0, _, _, _ => none
  | rounds + 1, edits, ahead, back =>
    let width := old.length
    let shift := (old.length : Int) - new.length
    let odd := shift % 2 ≠ 0
    let aheadStarts := starts ahead
    let aheadReach := List.zipWith (follow old new) (diagonals edits) aheadStarts
    let fromHead :=
      if odd then
        meeting? width shift (reachOn? (edits - 1) back)
          ((diagonals edits).zip (aheadStarts.zip aheadReach))
      else none
    match fromHead with
    | some (diagonal, start, _) => some (start, ((start : Int) - diagonal).toNat)
    | none =>
      let backStarts := starts back
      let backReach := List.zipWith (follow oldBack newBack) (diagonals edits) backStarts
      let fromEnd :=
        if odd then none
        else
          meeting? width shift (reachOn? edits aheadReach)
            ((diagonals edits).zip (backStarts.zip backReach))
      match fromEnd with
      | some (diagonal, _, column) =>
        some (old.length - column, new.length - ((column : Int) - diagonal).toNat)
      | none => search old new oldBack newBack rounds (edits + 1) aheadReach backReach

end Snake

/-- A point on a shortest path, away from both corners when the sequences differ at both ends. -/
def middleSnake? (old new : List α) : Option (Nat × Nat) :=
  Snake.search old new old.reverse new.reverse ((old.length + new.length + 1) / 2 + 1) 0 [] []

end Tracemark.Alignment
