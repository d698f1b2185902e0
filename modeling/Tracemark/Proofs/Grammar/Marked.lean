import Mathlib.Data.List.TakeWhile
import Tracemark.Proofs.Dispatch.Relocation
import Tracemark.Proofs.Grammar.Reference
import Tracemark.Proofs.Text.JoinedBlocks

/-! Blocks that start with the mark of a container.

A block is passed by all handlers before the containers when it starts with a mark and when no line of
it is a heading or a rule. A container that is opened in an empty tree is the youngest element there,
so what is parsed inside it becomes what it becomes alone.
-/

set_option autoImplicit false

namespace Tracemark

open Tracemark.Dispatch (offer run weight)
open Tracemark.LineShape (cut? heading? isIndented isRule)

namespace Dispatch

variable {guards others : List Handler} {handler : Handler} {session after : Session}
  {parent : NodeId} {block : Text} {rest : List Text} {budget : Nat}

theorem run_taken (rejected : ∀ guard ∈ guards, guard.accepts session parent block = false)
    (accepted : handler.accepts session parent block = true)
    (ran : handler.run (run (guards ++ handler :: others) budget) session parent block rest =
      .ok (.handled after rest)) :
    run (guards ++ handler :: others) (budget + 1) session parent (block :: rest) =
      run (guards ++ handler :: others) budget after parent rest := by
  rw [run, offer_of_rejected rejected, offer, if_pos accepted, ran]
  rfl

theorem run_singleton (rejected : ∀ guard ∈ guards, guard.accepts session parent block = false)
    (accepted : handler.accepts session parent block = true)
    (ran : handler.run (run (guards ++ handler :: others) (budget + 1)) session parent block [] =
      .ok (.handled after [])) :
    run (guards ++ handler :: others) (budget + 2) session parent [block] = .ok after :=
  run_taken rejected accepted ran

end Dispatch

namespace LineShape

theorem cut?_eq_none {α : Type} {shape : Text → Option α} {block : Text}
    (plain : ∀ line ∈ block.lines, shape line = none) : cut? shape block = none := by
  have passed : block.lines.dropWhile (shape · |>.isNone) = [] :=
    List.dropWhile_eq_nil_iff.2 fun line member => by simp [plain line member]
  simp only [cut?, passed]

end LineShape

namespace Grammar

/-- The handlers before the containers pass a block that starts with a mark and has neither headings
nor rules in it. -/
theorem rejected_of_marked {mark : Char} {text : Text} (visible : Text.isBlankChar mark = false)
    (noHeading : ∀ line ∈ Text.lines (mark :: text), heading? line = none)
    (noRule : ∀ line ∈ Text.lines (mark :: text), isRule line = false)
    (session : Session) (parent : NodeId) :
    ∀ handler ∈ [empty, indentedCode, heading, rule],
      handler.accepts session parent (mark :: text) = false := by
  have notFeed : mark ≠ '\n' := by
    rintro rfl
    exact absurd visible (by decide)
  have notSpace : mark ≠ ' ' := by
    rintro rfl
    exact absurd visible (by decide)
  have headings := LineShape.cut?_eq_none noHeading
  have rules : cut? rule? (mark :: text) = none :=
    LineShape.cut?_eq_none fun line member => by simp [rule?, noRule line member]
  intro handler member
  simp only [List.mem_cons, List.not_mem_nil, or_false] at member
  rcases member with rfl | rfl | rfl | rfl
  · simp [empty, Text.isBlank, visible, notFeed]
  · simp [indentedCode, isIndented, tabWidth, List.replicate, notSpace]
  · simp [heading, headings]
  · simp [rule, rules]

def fresh (stash : Stash) : Session := { Session.new with stash }

end Grammar

end Tracemark
