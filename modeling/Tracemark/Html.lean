import Tracemark.Text.Blank
import Tracemark.Text.Octets
import Tracemark.Tree.Branch

/-! Documents as HTML.

An element is written with its text first and its children after it. The children stand on lines of
their own, except inside `pre`, where a line feed would become part of the code. The five characters
that could end a text or a value early are written as entities.
-/

set_option autoImplicit false

namespace Tracemark.Html

def escapeChar : Char → Text
  | '&' => "&amp;".toList
  | '<' => "&lt;".toList
  | '>' => "&gt;".toList
  | '"' => "&quot;".toList
  | '\'' => "&#39;".toList
  | c => [c]

def escape (text : Text) : Text := text.flatMap escapeChar

/-- Tags that close themselves when there is nothing inside. -/
def isVoid (tag : String) : Bool := tag = "hr" || tag = "br" || tag = "img"

def lineEnd (ownLine : Bool) : Text := if ownLine then ['\n'] else []

def valuePair (entry : String × Text) : Text :=
  ' ' :: entry.1.toList ++ '=' :: '"' :: escape entry.2 ++ ['"']

def opening (tag : String) (attributes : Attributes) : Text :=
  '<' :: tag.toList ++ attributes.entries.flatMap valuePair

def closing (tag : String) : Text := '<' :: '/' :: tag.toList ++ ['>']

mutual

def branch (ownLine : Bool) : Branch → Text
  | .node tag text attributes children =>
    if text.isNone && children.isEmpty && isVoid tag then
      opening tag attributes ++ " />".toList ++ lineEnd ownLine
    else
      opening tag attributes ++ ['>'] ++ escape (text.getD []) ++
        lineEnd (!children.isEmpty && tag != "pre") ++ branches (tag != "pre") children ++
        closing tag ++ lineEnd ownLine

def branches (ownLine : Bool) : List Branch → Text
  | [] => []
  | first :: rest => branch ownLine first ++ branches ownLine rest

end

/-- The elements below the root, each with a line of its own. -/
def write (tree : Tree) : Text := branches true tree.forest

def render (tree : Tree) : Text := (write tree).trimEnd

/-- What a writer leaves in a store of bounded size. -/
structure Bounded where
  /-- The characters that fit whole. -/
  written : Text
  /-- The bound falls inside the character after them. -/
  cut : Bool
  /-- The document is longer than the store. -/
  overflow : Bool
  deriving DecidableEq, Repr

def writeWithin (tree : Tree) (limit : Nat) : Bounded :=
  let (written, cut) := (write tree).clip limit
  { written, cut, overflow := limit < (write tree).octets }

end Tracemark.Html
