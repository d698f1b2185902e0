import Tracemark.Interval

/-! Why lines have no offsets. -/

set_option autoImplicit false

namespace Tracemark.Offsets

inductive Failure where
  /-- The lines have no counterpart in the source document. -/
  | noMapping (lines : Interval)
  /-- The document has only `length` lines. -/
  | lineOutOfRange (line length : Nat)
  deriving DecidableEq, Repr

namespace Failure

def message : Failure → String
  | noMapping lines =>
    "no original lines correspond to lines " ++ toString lines.start ++ ".." ++ toString lines.stop
  | lineOutOfRange line length =>
    "line " ++ toString line ++ " is outside the " ++ toString length ++ "-line document"

end Failure

end Tracemark.Offsets
