/-! Maps that remember the order in which their keys came.

Writing to a key that is there keeps its place and replaces its value. Any other key goes to the
end. A key therefore stands in the list of entries at most once.
-/

set_option autoImplicit false

namespace Tracemark

structure OrderedMap (κ β : Type) where
  entries : List (κ × β) := []
  deriving DecidableEq, Repr

namespace OrderedMap

variable {κ β : Type}

def empty : OrderedMap κ β := {}

def keys (map : OrderedMap κ β) : List κ := map.entries.map (·.1)

variable [DecidableEq κ]

def get? (map : OrderedMap κ β) (key : κ) : Option β :=
  (map.entries.find? (·.1 = key)).map (·.2)

def put (key : κ) (value : β) : List (κ × β) → List (κ × β)
  | [] => [(key, value)]
  | (other, old) :: rest =>
    if other = key then (key, value) :: rest else (other, old) :: put key value rest

def insert (map : OrderedMap κ β) (key : κ) (value : β) : OrderedMap κ β :=
  ⟨put key value map.entries⟩

@[simp] theorem get?_empty (key : κ) : (empty : OrderedMap κ β).get? key = none := rfl

theorem get?_insert_self (map : OrderedMap κ β) (key : κ) (value : β) :
    (map.insert key value).get? key = some value := by
  obtain ⟨entries⟩ := map
  induction entries with
  | nil => simp [insert, put, get?]
  | cons entry rest ih =>
    by_cases same : entry.1 = key
    · simp [insert, put, get?, same]
    · simpa [insert, put, get?, same] using ih

theorem get?_insert_of_ne (map : OrderedMap κ β) {key other : κ} (value : β)
    (different : other ≠ key) : (map.insert key value).get? other = map.get? other := by
  obtain ⟨entries⟩ := map
  induction entries with
  | nil => simp [insert, put, get?, Ne.symm different]
  | cons entry rest ih =>
    by_cases same : entry.1 = key
    · simp [insert, put, get?, same, Ne.symm different]
    · by_cases found : entry.1 = other
      · simp [insert, put, get?, found, different]
      · simpa [insert, put, get?, same, found] using ih

theorem keys_insert (map : OrderedMap κ β) (key : κ) (value : β) :
    (map.insert key value).keys = if key ∈ map.keys then map.keys else map.keys ++ [key] := by
  obtain ⟨entries⟩ := map
  induction entries with
  | nil => simp [insert, put, keys]
  | cons entry rest ih =>
    by_cases same : entry.1 = key
    · simp [insert, put, keys, same]
    · simp only [insert, keys, put, same, if_false, List.map_cons] at ih ⊢
      rw [ih]
      by_cases member : key ∈ rest.map (·.1)
      · simp [member]
      · simp [member, Ne.symm same]

end OrderedMap

end Tracemark
