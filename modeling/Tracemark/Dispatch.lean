import Tracemark.Handler
import Tracemark.Registry

/-! Dispatch of blocks to handlers.

The block at the head of the queue is offered to the handlers in order until one of them takes it.
A block that no handler takes is dropped. This goes on until the queue is empty.

Handlers may put text back and may have text parsed again, so the run is given a budget of nested
and repeated steps. The budget of `parseBlocks` pays for one step per character and block of the
queue and one more per handler. This is enough where each handler shortens what it puts back or
has parsed again, or hands a block on as it is no more than once in a chain of nested runs.
-/

set_option autoImplicit false

namespace Tracemark

abbrev Handlers := Registry Handler

namespace Dispatch

/-- Offer a block to handlers in turn. Gives the session and the queue after the one that takes
it. -/
def offer (reparse : Reparse) (parent : NodeId) (block : Text) (rest : List Text) :
    List Handler → Session → Except Fault (Session × List Text)
  | [], session => return (session, rest)
  | handler :: others, session => do
    if handler.accepts session parent block then
      match ← handler.run reparse session parent block rest with
      | .handled session queue => return (session, queue)
      | .declined session => offer reparse parent block rest others session
    else offer reparse parent block rest others session

def run (handlers : List Handler) : (budget : Nat) → Reparse
  | 0, _, _, _ => throw .exhausted
  | _ + 1, session, _, [] => return session
  | budget + 1, session, parent, block :: rest => do
    let (session, queue) ← offer (run handlers budget) parent block rest handlers session
    run handlers budget session parent queue

/-- The number of characters and blocks of a queue. -/
def weight : List Text → Nat
  | [] => 0
  | block :: rest => block.length + 1 + weight rest

end Dispatch

namespace Handlers

def parseBlocks (handlers : Handlers) : Reparse := fun session parent queue =>
  Dispatch.run handlers.items (Dispatch.weight queue + handlers.size + 1) session parent queue

def parseText (handlers : Handlers) (session : Session) (parent : NodeId) (text : Text) :
    Except Fault Session :=
  handlers.parseBlocks session parent text.blocks

def parseDocument (handlers : Handlers) (session : Session) (lines : List Text) :
    Except Fault Session :=
  handlers.parseText session Tree.root (Text.joinLines lines)

end Handlers

end Tracemark
