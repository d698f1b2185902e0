import Tracemark.Extensions
import Tracemark.Offsets.Tracker
import Tracemark.Stash

/-! The state of one render.

A session is made for one document and holds all that its stages and handlers leave behind, so
nothing passes from one document to the next.
-/

set_option autoImplicit false

namespace Tracemark

inductive Slot where
  | tracker
  deriving DecidableEq, Repr

abbrev Slot.Value : Slot → Type
  | tracker => Offsets.Tracker

abbrev Metadata := OrderedMap Text Text

structure Session where
  tree : Tree := .empty
  stash : Stash := {}
  metadata : Metadata := {}
  extensions : Extensions Slot Slot.Value := {}

namespace Session

def new : Session := {}

def tracker? (session : Session) : Option Offsets.Tracker := session.extensions.get? .tracker

def setTracker (session : Session) (tracker : Offsets.Tracker) : Session :=
  { session with extensions := session.extensions.set .tracker tracker }

def dropTracker (session : Session) : Session :=
  { session with extensions := (session.extensions.remove .tracker).2 }

def setTree (session : Session) (tree : Tree) : Session := { session with tree }

@[simp] theorem tracker?_setTracker (session : Session) (tracker : Offsets.Tracker) :
    (session.setTracker tracker).tracker? = some tracker :=
  Extensions.get?_set_self _ _ _

@[simp] theorem tracker?_setTree (session : Session) (tree : Tree) :
    (session.setTree tree).tracker? = session.tracker? := rfl

end Session

end Tracemark
