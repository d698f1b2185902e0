import Tracemark.Fault
import Tracemark.OrderedMap
import Tracemark.Text.Basic

/-! Trees of elements.

A tree numbers its elements in the order of their making, and the root is element zero. An element
names its children and its parent, so an element that was taken out of its parent stays in the tree
and can be put back. Every operation keeps the two sides of a link equal: the children of an element
are the elements that name it as their parent.
-/

set_option autoImplicit false

namespace Tracemark

abbrev NodeId := Nat

abbrev Attributes := OrderedMap String Text

structure Element where
  tag : String
  text : Option Text := none
  attributes : Attributes := {}
  children : List NodeId := []
  parent : Option NodeId := none
  deriving DecidableEq, Repr

structure Tree where
  elements : List Element
  deriving DecidableEq, Repr

namespace Tree

def empty : Tree := ⟨[{ tag := "div" }]⟩

def root : NodeId := 0

/-- The number of elements, the root and those taken out included. -/
def size (tree : Tree) : Nat := tree.elements.length

/-- Whether the root is the only element ever made. -/
def isEmpty (tree : Tree) : Bool := tree.size = 1

def get? (tree : Tree) (id : NodeId) : Option Element := tree.elements[id]?

def element (tree : Tree) (id : NodeId) : Except Fault Element :=
  match tree.get? id with
  | some element => .ok element
  | none => .error (.missingNode id)

def update (tree : Tree) (id : NodeId) (change : Element → Element) : Except Fault Tree :=
  if id < tree.size then .ok ⟨tree.elements.modify id change⟩ else .error (.missingNode id)

def children (tree : Tree) (id : NodeId) : Except Fault (List NodeId) :=
  return (← tree.element id).children

def lastChild? (tree : Tree) (id : NodeId) : Except Fault (Option NodeId) :=
  return (← tree.children id).getLast?

def attach (tree : Tree) (parent : NodeId) (element : Element) : Except Fault (NodeId × Tree) := do
  let id := tree.size
  let grown : Tree := ⟨tree.elements ++ [{ element with parent := some parent }]⟩
  let linked ← grown.update parent fun above => { above with children := above.children ++ [id] }
  return (id, linked)

def append (tree : Tree) (parent : NodeId) (tag : String) : Except Fault (NodeId × Tree) :=
  tree.attach parent { tag }

def appendText (tree : Tree) (parent : NodeId) (tag : String) (text : Text) :
    Except Fault (NodeId × Tree) :=
  tree.attach parent { tag, text := some text }

def detach (tree : Tree) (id : NodeId) : Except Fault Tree := do
  match (← tree.element id).parent with
  | none => return tree
  | some parent =>
    let orphaned ← tree.update id fun element => { element with parent := none }
    orphaned.update parent fun above => { above with children := above.children.filter (· ≠ id) }

def reattach (tree : Tree) (parent id : NodeId) : Except Fault Tree := do
  let detached ← tree.detach id
  let adopted ← detached.update id fun element => { element with parent := some parent }
  adopted.update parent fun above => { above with children := above.children ++ [id] }

def setText (tree : Tree) (id : NodeId) (text : Option Text) : Except Fault Tree :=
  tree.update id fun element => { element with text }

def setAttribute (tree : Tree) (id : NodeId) (name : String) (value : Text) : Except Fault Tree :=
  tree.update id fun element => { element with attributes := element.attributes.insert name value }

def attribute? (tree : Tree) (id : NodeId) (name : String) : Except Fault (Option Text) :=
  return (← tree.element id).attributes.get? name

/-- The elements on a stack and below them, each before its children. -/
def walk (tree : Tree) : (fuel : Nat) → List NodeId → List NodeId
  -- A branch that leads back to itself is followed for as long as there is fuel.
  | 0, _ | _, [] => []
  | fuel + 1, id :: stack =>
    id :: tree.walk fuel (((tree.get? id).map (·.children)).getD [] ++ stack)

def descendants (tree : Tree) (id : NodeId) : Except Fault (List NodeId) :=
  return tree.walk tree.size (← tree.children id)

end Tree

end Tracemark
