import Tracemark.Html
import Tracemark.Interval
import Tracemark.Text.Numeral

/-! Offsets on elements.

An origin is written onto an element as attributes, so it survives in the written document. The
two ends are always written. With the document at hand the text between them and whether each end is
accurate are written as well.
-/

set_option autoImplicit false

namespace Tracemark.Offsets

structure Origin where
  start : Nat
  stop : Nat
  startAccurate : Bool
  endAccurate : Bool
  deriving DecidableEq, Repr

structure AttributeNames where
  start : String
  stop : String
  text : String
  startAccurate : String
  endAccurate : String
  deriving DecidableEq, Repr

def AttributeNames.ofLead (lead : String) : AttributeNames where
  start := lead ++ "original-document-start"
  stop := lead ++ "original-document-end"
  text := lead ++ "original-document"
  startAccurate := lead ++ "offset-accurate-start"
  endAccurate := lead ++ "offset-accurate-end"

def AttributeNames.toList (names : AttributeNames) : List String :=
  [names.start, names.stop, names.text, names.startAccurate, names.endAccurate]

/-- Writes origins. A stamper with the document also writes texts and accuracies. -/
structure Stamper where
  names : AttributeNames
  document : Option Text

namespace Stamper

/-- Write the text of a range, which is empty where the range is no slice of the document. -/
def recordText (stamper : Stamper) (tree : Tree) (node : NodeId) (document : Text)
    (start stop : Nat) : Except Fault Tree :=
  tree.setAttribute node stamper.names.text ((document.slice? start stop).getD [])

def stamp (stamper : Stamper) (tree : Tree) (node : NodeId) (origin : Origin) :
    Except Fault Tree := do
  let names := stamper.names
  let tree ← tree.setAttribute node names.start (Text.ofNat origin.start)
  let tree ← tree.setAttribute node names.stop (Text.ofNat origin.stop)
  match stamper.document with
  | none => return tree
  | some document =>
    let tree ← stamper.recordText tree node document origin.start origin.stop
    let tree ← tree.setAttribute node names.startAccurate (Text.ofBool origin.startAccurate)
    tree.setAttribute node names.endAccurate (Text.ofBool origin.endAccurate)

def extend (stamper : Stamper) (tree : Tree) (node : NodeId) (origin : Origin) :
    Except Fault Tree := do
  let names := stamper.names
  let tree ← tree.setAttribute node names.stop (Text.ofNat origin.stop)
  match stamper.document with
  | none => return tree
  | some document =>
    let kept := (← tree.attribute? node names.start).bind Text.numeral?
    let tree ←
      stamper.recordText tree node document (kept.getD origin.start) origin.stop
    tree.setAttribute node names.endAccurate (Text.ofBool origin.endAccurate)

/-- Write the end, and a start if there is none. Says whether there was one. -/
def patch (stamper : Stamper) (tree : Tree) (node : NodeId) (origin : Origin) :
    Except Fault (Bool × Tree) := do
  let name := stamper.names.start
  let hadStart := (← tree.attribute? node name).isSome
  let tree ←
    if hadStart then pure tree else tree.setAttribute node name (Text.ofNat origin.start)
  return (hadStart, ← stamper.extend tree node origin)

end Stamper

structure NodeSpan where
  node : NodeId
  tag : String
  start : Nat
  stop : Nat
  startAccurate : Option Bool
  endAccurate : Option Bool
  deriving DecidableEq, Repr

def NodeSpan.ofElement? (names : AttributeNames) (node : NodeId) (element : Element) :
    Option NodeSpan := do
  let start ← (element.attributes.get? names.start).bind Text.numeral?
  let stop ← (element.attributes.get? names.stop).bind Text.numeral?
  return {
    node, tag := element.tag, start, stop
    startAccurate := (element.attributes.get? names.startAccurate).bind Text.bool?
    endAccurate := (element.attributes.get? names.endAccurate).bind Text.bool? }

def collectSpans (tree : Tree) (lead : String) : Except Fault (List NodeSpan) :=
  return (← tree.descendants Tree.root).filterMap fun node =>
    (tree.get? node).bind (NodeSpan.ofElement? (.ofLead lead) node)

end Tracemark.Offsets
