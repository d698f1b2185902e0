import Tracemark.Grammar.LineShape
import Tracemark.Handler

/-! Handlers that parse no text again: blank blocks, code and paragraphs. -/

set_option autoImplicit false

namespace Tracemark.Grammar

open LineShape (isIndented dedent)

/-- A text put back at the head of a queue, unless it is blank. -/
def putBack (text : Text) (queue : List Text) : List Text :=
  if text.isBlank then queue else text :: queue

/-- Takes blank blocks, and the line feeds that a run of blank lines leaves at the head of a
block. -/
def empty : Handler where
  name := "empty"
  accepts _ _ block := block.isBlank || block.head? = some '\n'
  run _ session _ block rest := return .handled session (putBack block.dropLeadingFeeds rest)

def lastCode? (tree : Tree) (parent : NodeId) : Except Fault (Option NodeId) := do
  let some sibling ← tree.lastChild? parent | return none
  let element ← tree.element sibling
  if element.tag ≠ "pre" then return none
  let some code := element.children.head? | return none
  if (← tree.element code).tag = "code" then return some code else return none

/-- Takes the indented lines at the head of a block as code. Code that follows code directly goes on
with it after an empty line. -/
def indentedCode : Handler where
  name := "indented_code"
  accepts _ _ block := isIndented block
  run _ session parent block rest := do
    let isCode (line : Text) : Bool := isIndented line || line.isBlank
    let lines := block.lines
    let code := Text.dropTrailingFeeds (Text.joinLines ((lines.takeWhile isCode).map dedent))
    let queue :=
      match lines.dropWhile isCode with
      | [] => rest
      | others => Text.joinLines others :: rest
    match ← lastCode? session.tree parent with
    | some existing =>
      let tree ← session.tree.update existing fun element =>
        { element with text := some (element.text.getD [] ++ '\n' :: '\n' :: code) }
      return .handled (session.setTree tree) queue
    | none =>
      let (pre, tree) ← session.tree.append parent "pre"
      let (_, tree) ← tree.appendText pre "code" code
      return .handled (session.setTree tree) queue

def stash : Handler where
  name := "stash"
  accepts session _ block := (session.stash.resolve? block).isSome
  run _ session parent block rest := do
    match session.stash.resolve? block with
    | none => return .declined session
    | some fragment =>
      let (pre, tree) ← session.tree.append parent "pre"
      let (code, tree) ← tree.appendText pre "code" fragment.code
      match fragment.language with
      | none => return .handled (session.setTree tree) rest
      | some language =>
        let tree ← tree.setAttribute code "class" ("language-".toList ++ language)
        return .handled (session.setTree tree) rest

def paragraphText (block : Text) : Text :=
  Text.joinLines ((block.lines.map Text.trim).filter (· ≠ []))

def paragraph : Handler where
  name := "paragraph"
  accepts _ _ _ := true
  run _ session parent block rest := do
    let text := paragraphText block
    if text = [] then return .handled session rest
    let (_, tree) ← session.tree.appendText parent "p" text
    return .handled (session.setTree tree) rest

end Tracemark.Grammar
