/-! Why a run stops without an answer. -/

set_option autoImplicit false

namespace Tracemark

/-- A run stops when it uses a node that the tree does not hold, or when it takes more steps than
its budget allows. -/
inductive Fault where
  | missingNode (id : Nat)
  | exhausted
  deriving DecidableEq, Repr

end Tracemark
