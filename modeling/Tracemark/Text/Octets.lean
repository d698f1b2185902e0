import Tracemark.Text.Basic

/-! Offsets into text, counted in octets of its UTF-8 form.

A cut is refused when it falls inside a character or past the end, so a slice is always text.
-/

set_option autoImplicit false

namespace Tracemark.Text

def octets : Text → Nat
  | [] => 0
  | c :: rest => c.utf8Size + octets rest

def dropOctets? : Text → Nat → Option Text
  | text, 0 => some text
  | [], _ + 1 => none
  | c :: rest, count + 1 =>
    if c.utf8Size ≤ count + 1 then dropOctets? rest (count + 1 - c.utf8Size) else none

def takeOctets? : Text → Nat → Option Text
  | _, 0 => some []
  | [], _ + 1 => none
  | c :: rest, count + 1 =>
    if c.utf8Size ≤ count + 1 then (takeOctets? rest (count + 1 - c.utf8Size)).map (c :: ·)
    else none

/-- The octets from `start` up to `stop`. Reversed bounds have no slice. -/
def slice? (text : Text) (start stop : Nat) : Option Text :=
  if start ≤ stop then (text.dropOctets? start).bind (takeOctets? · (stop - start)) else none

/-- The characters that fit whole into `limit` octets, and whether a character was cut. -/
def clip : Text → Nat → Text × Bool
  | [], _ => ([], false)
  | c :: rest, limit =>
    if c.utf8Size ≤ limit then
      let (kept, cut) := clip rest (limit - c.utf8Size)
      (c :: kept, cut)
    else ([], 0 < limit)

@[simp] theorem octets_nil : octets [] = 0 := rfl

@[simp] theorem octets_cons (c : Char) (text : Text) :
    octets (c :: text) = c.utf8Size + octets text := rfl

@[simp] theorem octets_append (first rest : Text) :
    octets (first ++ rest) = octets first + octets rest := by
  induction first with
  | nil => simp
  | cons c first ih => simp [ih, Nat.add_assoc]

theorem dropOctets?_append (first rest : Text) :
    dropOctets? (first ++ rest) (octets first) = some rest := by
  induction first with
  | nil => cases rest <;> rfl
  | cons c first ih =>
    obtain ⟨size, positive⟩ : ∃ size, c.utf8Size = size + 1 :=
      ⟨c.utf8Size - 1, by have := c.utf8Size_pos; omega⟩
    have split : octets (c :: first) = (size + octets first) + 1 := by
      simp [positive]; omega
    rw [List.cons_append, split, dropOctets?, if_pos (by omega),
      show size + octets first + 1 - c.utf8Size = octets first by omega, ih]

theorem takeOctets?_append (first rest : Text) :
    takeOctets? (first ++ rest) (octets first) = some first := by
  induction first with
  | nil => cases rest <;> rfl
  | cons c first ih =>
    obtain ⟨size, positive⟩ : ∃ size, c.utf8Size = size + 1 :=
      ⟨c.utf8Size - 1, by have := c.utf8Size_pos; omega⟩
    have split : octets (c :: first) = (size + octets first) + 1 := by
      simp [positive]; omega
    rw [List.cons_append, split, takeOctets?, if_pos (by omega),
      show size + octets first + 1 - c.utf8Size = octets first by omega, ih]
    rfl

theorem slice?_append (before part after : Text) :
    slice? (before ++ part ++ after) (octets before) (octets before + octets part) =
      some part := by
  rw [slice?, if_pos (by omega), List.append_assoc, dropOctets?_append, Option.bind_some,
    show octets before + octets part - octets before = octets part by omega, takeOctets?_append]

end Tracemark.Text
