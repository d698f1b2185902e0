import Tracemark.Session

/-! Block handlers.

A handler looks at the block at the head of a queue and either takes it, and may put text back in
its place, or declines it. It may have text of its own parsed by all handlers, under any node.
-/

set_option autoImplicit false

namespace Tracemark

/-- What came of a block that was offered. Declining keeps the queue as it was, but the session may
have changed. -/
inductive Outcome where
  | handled (session : Session) (queue : List Text)
  | declined (session : Session)

/-- Parsing of a queue of blocks under a node, as a handler may ask for it. -/
abbrev Reparse := Session → NodeId → List Text → Except Fault Session

structure Handler where
  name : String
  /-- Whether the handler is to be offered a block. -/
  accepts : Session → NodeId → Text → Bool
  /-- Take the block at the head of a queue, or decline it. The last argument is the queue behind
  the block. -/
  run : Reparse → Session → NodeId → Text → List Text → Except Fault Outcome

namespace Handler

/-- Offer a queue. There is nothing to take from an empty one. -/
def offer (handler : Handler) (reparse : Reparse) (session : Session) (parent : NodeId) :
    List Text → Except Fault Outcome
  | [] => return .declined session
  | block :: rest => handler.run reparse session parent block rest

end Handler

end Tracemark
