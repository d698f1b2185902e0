import Tracemark.Text.Blank
import Tracemark.Text.Numeral

/-! Fragments set aside while lines are changed.

A fragment is put away under the next free number, and a placeholder line with that number stands in
for it. Placeholders are framed by two control characters, which a document has no use for.
-/

set_option autoImplicit false

namespace Tracemark

namespace Stash

structure Fragment where
  language : Option Text
  code : Text
  deriving DecidableEq, Repr

end Stash

structure Stash where
  fragments : List Stash.Fragment := []
  deriving DecidableEq, Repr

namespace Stash

def empty : Stash := {}

def size (stash : Stash) : Nat := stash.fragments.length

def get? (stash : Stash) (number : Nat) : Option Fragment := stash.fragments[number]?

def openMark : Text := '\x02' :: "stash:".toList

def closeMark : Text := ['\x03']

def placeholder (number : Nat) : Text := openMark ++ Text.ofNat number ++ closeMark

/-- The number in a placeholder, with blanks around the whole allowed. -/
def placeholder? (line : Text) : Option Nat := do
  let opened ← Text.dropPrefix? openMark line.trim
  let numeral ← Text.dropSuffix? closeMark opened
  Text.numeral? numeral

/-- Put a fragment away. Gives the line that stands in for it. -/
def store (stash : Stash) (fragment : Fragment) : Text × Stash :=
  (placeholder stash.size, ⟨stash.fragments ++ [fragment]⟩)

def resolve? (stash : Stash) (line : Text) : Option Fragment :=
  (placeholder? line).bind stash.get?

end Stash

end Tracemark
