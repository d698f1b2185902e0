import Tracemark.Grammar.Leaf

/-! Handlers whose elements hold blocks: lists and quotes.

The text inside is parsed by all handlers. A block that follows an element of its own kind directly
is added to that element.
-/

set_option autoImplicit false

namespace Tracemark.Grammar

open LineShape (ListKind dedent item? quoted?)

def openContainer (tree : Tree) (parent : NodeId) (tag : String) :
    Except Fault (NodeId × Tree) := do
  match ← tree.lastChild? parent with
  | none => tree.append parent tag
  | some sibling =>
    if (← tree.element sibling).tag = tag then return (sibling, tree) else tree.append parent tag

def itemBodies (kind : ListKind) : List Text → List (List Text)
  | [] => []
  | line :: rest =>
    let isOther (line : Text) : Bool := (item? line).map (·.1) ≠ some kind
    match item? line with
    | some (found, text) =>
      -- Other lines go on with the item above them, without as much indentation as marks code.
      if found = kind then
        (text :: (rest.takeWhile isOther).map dedent) :: itemBodies kind rest
      else itemBodies kind rest
    | none => itemBodies kind rest

/-- Give an item the text of its paragraph when it holds nothing else. -/
def tighten (tree : Tree) (item : NodeId) : Except Fault Tree := do
  match ← tree.children item with
  | [only] =>
    let element ← tree.element only
    if element.tag ≠ "p" ∨ element.children ≠ [] then return tree
    let tree ← tree.setText only none
    let tree ← tree.detach only
    tree.setText item element.text
  | _ => return tree

def writeItems (reparse : Reparse) (list : NodeId) :
    List (List Text) → Session → Except Fault Session
  | [], session => return session
  | body :: rest, session => do
    let (item, tree) ← session.tree.append list "li"
    let session ← reparse (session.setTree tree) item (Text.joinLines body).blocks
    let tree ← tighten session.tree item
    writeItems reparse list rest (session.setTree tree)

/-- Takes a block whose first line is a list item. The kind of that item is the kind of the list. -/
def list : Handler where
  name := "list"
  accepts _ _ block := (item? block.firstLine).isSome
  run reparse session parent block rest := do
    match item? block.firstLine with
    | none => return .declined session
    | some (kind, _) =>
      let (list, tree) ← openContainer session.tree parent kind.tag
      let session ← writeItems reparse list (itemBodies kind block.lines) (session.setTree tree)
      return .handled session rest

/-- A block without its quote marks. Lines without a mark are kept as they are. -/
def unquote (block : Text) : Text :=
  Text.joinLines (block.lines.map fun line => (quoted? line).getD line)

def blockquote : Handler where
  name := "blockquote"
  accepts _ _ block := (quoted? block.firstLine).isSome
  run reparse session parent block rest := do
    let (quote, tree) ← openContainer session.tree parent "blockquote"
    let session ← reparse (session.setTree tree) quote (unquote block).blocks
    return .handled session rest

end Tracemark.Grammar
