import Tracemark.Alignment.RestoreMap

/-! What can be set about offsets. -/

set_option autoImplicit false

namespace Tracemark.Offsets

structure Settings where
  /-- Write texts and accuracies beside the two ends. -/
  debug : Bool := false
  strategy : Alignment.Strategy := .diff
  /-- How the names of all attributes begin. -/
  attributeLead : String := "data-"
  deriving DecidableEq, Repr

end Tracemark.Offsets
