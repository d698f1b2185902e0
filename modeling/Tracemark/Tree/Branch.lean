import Tracemark.Tree.Basic

/-! The shape of a tree, free of element numbers.

A branch holds what can be read off a document: tags, texts, attributes and the order of children.
Two trees with the same branches below their roots write the same document.
-/

set_option autoImplicit false

namespace Tracemark

inductive Branch where
  | node (tag : String) (text : Option Text) (attributes : Attributes) (children : List Branch)

namespace Branch

def tag : Branch → String
  | node tag _ _ _ => tag

def text : Branch → Option Text
  | node _ text _ _ => text

def attributes : Branch → Attributes
  | node _ _ attributes _ => attributes

def children : Branch → List Branch
  | node _ _ _ children => children

end Branch

namespace Tree

def branch? (tree : Tree) : (depth : Nat) → NodeId → Option Branch
  | depth, id => do
    let element ← tree.get? id
    match depth with
    | 0 => return .node element.tag element.text element.attributes []
    | depth + 1 =>
      return .node element.tag element.text element.attributes
        (element.children.filterMap (tree.branch? depth))

/-- The branches below an element. A chain of parents is never longer than the tree. -/
def branches (tree : Tree) (id : NodeId) : List Branch :=
  ((tree.branch? tree.size id).map Branch.children).getD []

def forest (tree : Tree) : List Branch := tree.branches root

def preorder (tree : Tree) : (depth : Nat) → NodeId → List NodeId
  | 0, _ => []
  | depth + 1, id =>
    id :: (((tree.get? id).map (·.children)).getD []).flatMap (tree.preorder depth)

end Tree

end Tracemark
