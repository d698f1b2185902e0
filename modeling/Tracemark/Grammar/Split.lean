import Tracemark.Grammar.Leaf

/-! Handlers that cut a block at a line: headings and rules.

The text before the line is parsed on the spot as one block, so it comes first in the tree. The text
behind it goes back on the queue.
-/

set_option autoImplicit false

namespace Tracemark.Grammar

open LineShape (Cut cut? heading? isRule)

/-- Parse what stands before a cut, write an element, and put back what stands behind. -/
def writeAt {α : Type} (cut : Cut α) (element : Element) (reparse : Reparse) (session : Session)
    (parent : NodeId) (rest : List Text) : Except Fault Outcome := do
  let session ←
    if cut.before.isBlank then pure session else reparse session parent [cut.before]
  let (_, tree) ← session.tree.attach parent element
  return .handled (session.setTree tree) (putBack cut.behind rest)

def headingTag (level : Nat) : String := "h" ++ toString level

def heading : Handler where
  name := "heading"
  accepts _ _ block := (cut? heading? block).isSome
  run reparse session parent block rest := do
    match cut? heading? block with
    | none => return .declined session
    | some cut =>
      let element : Element := { tag := headingTag cut.found.level, text := some cut.found.title }
      writeAt cut element reparse session parent rest

def rule? (line : Text) : Option Unit := if isRule line then some () else none

def rule : Handler where
  name := "rule"
  accepts _ _ block := (cut? rule? block).isSome
  run reparse session parent block rest := do
    match cut? rule? block with
    | none => return .declined session
    | some cut => writeAt cut { tag := "hr" } reparse session parent rest

end Tracemark.Grammar
