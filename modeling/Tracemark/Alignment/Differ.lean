import Tracemark.Alignment.EditScript
import Tracemark.Text.Basic

/-! What aligns two runs of lines by their keys.

How a diff finds its script is left open. All that a script says of its own is where an operation
starts on either side and how far it runs.
-/

set_option autoImplicit false

namespace Tracemark.Alignment

/-- A diff gives the script that turns mutated keys into source keys. -/
structure Differ where
  script : (source mutated : List Text) → EditScript
  forward : ∀ source mutated, ∀ op ∈ script source mutated, op.Forward

end Tracemark.Alignment
