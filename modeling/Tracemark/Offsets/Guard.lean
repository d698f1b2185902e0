/-! Whether a block is being handed on.

While the offsets layer has a block parsed by the handlers below it, it takes no other block, so
text that those handlers parse again is not claimed a second time.
-/

set_option autoImplicit false

namespace Tracemark.Offsets

inductive Guard where
  | idle
  | prerendering
  deriving DecidableEq, Repr

namespace Guard

def isPrerendering : Guard → Bool
  | idle => false
  | prerendering => true

def enter (_ : Guard) : Guard := prerendering

def exit (_ : Guard) : Guard := idle

end Guard

end Tracemark.Offsets
