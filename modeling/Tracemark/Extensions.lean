/-! Storage for values of several kinds, at most one of each kind.

The kind of a value fixes its type, so a look-up needs no conversion that could fail.
-/

set_option autoImplicit false

namespace Tracemark

structure Extensions (κ : Type) (Value : κ → Type) where
  entries : List ((kind : κ) × Value kind) := []

namespace Extensions

variable {κ : Type} {Value : κ → Type} [DecidableEq κ]

def find? : List ((kind : κ) × Value kind) → (kind : κ) → Option (Value kind)
  | [], _ => none
  | ⟨other, value⟩ :: rest, kind =>
    if same : other = kind then some (same ▸ value) else find? rest kind

def get? (store : Extensions κ Value) (kind : κ) : Option (Value kind) :=
  find? store.entries kind

def remove (store : Extensions κ Value) (kind : κ) : Option (Value kind) × Extensions κ Value :=
  (store.get? kind, ⟨store.entries.filter (·.1 ≠ kind)⟩)

def insert (store : Extensions κ Value) (kind : κ) (value : Value kind) :
    Option (Value kind) × Extensions κ Value :=
  let (earlier, others) := store.remove kind
  (earlier, ⟨⟨kind, value⟩ :: others.entries⟩)

def set (store : Extensions κ Value) (kind : κ) (value : Value kind) : Extensions κ Value :=
  (store.insert kind value).2

def size (store : Extensions κ Value) : Nat := store.entries.length

/-- A store shows how many values it holds, and none of them. -/
def summary (store : Extensions κ Value) : String :=
  "Extensions \x7b len: " ++ toString store.size ++ " \x7d"

theorem get?_set_self (store : Extensions κ Value) (kind : κ) (value : Value kind) :
    (store.set kind value).get? kind = some value := by
  simp [set, insert, remove, get?, find?]

end Extensions

end Tracemark
