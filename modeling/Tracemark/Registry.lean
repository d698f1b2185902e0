/-! Named parts in order of priority.

A registry lists its parts by falling priority, and parts of one priority in the order in which
they were registered. A name stands for one part: registering it again drops the earlier part and
counts as a new registration.
-/

set_option autoImplicit false

namespace Tracemark

namespace Registry

structure Entry (α : Type) where
  name : String
  priority : Int
  item : α
  deriving DecidableEq, Repr

end Registry

structure Registry (α : Type) where
  entries : List (Registry.Entry α) := []
  deriving DecidableEq, Repr

namespace Registry

variable {α : Type}

def empty : Registry α := {}

/-- Put an entry behind all entries of at least its priority. -/
def place (entry : Entry α) (entries : List (Entry α)) : List (Entry α) :=
  entries.takeWhile (entry.priority ≤ ·.priority) ++
    entry :: entries.dropWhile (entry.priority ≤ ·.priority)

def register (registry : Registry α) (name : String) (priority : Int) (item : α) : Registry α :=
  ⟨place ⟨name, priority, item⟩ (registry.entries.filter (·.name ≠ name))⟩

def deregister (registry : Registry α) (name : String) : Option α × Registry α :=
  ((registry.entries.find? (·.name = name)).map (·.item),
    ⟨registry.entries.eraseP (·.name = name)⟩)

def contains (registry : Registry α) (name : String) : Bool :=
  registry.entries.any (·.name = name)

def items (registry : Registry α) : List α := registry.entries.map (·.item)

def names (registry : Registry α) : List String := registry.entries.map (·.name)

def size (registry : Registry α) : Nat := registry.entries.length

theorem mem_names_iff {registry : Registry α} {name : String} :
    name ∈ registry.names ↔ registry.contains name = true := by
  simp [names, contains]

end Registry

end Tracemark
