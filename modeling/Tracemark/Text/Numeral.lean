import Tracemark.Text.Basic

/-! Decimal numerals for counts below 2^64.

Reading allows one plus sign and leading zeros, and refuses blanks, a lone sign and any count that
does not fit 64 bits. Writing gives the digits alone, so a written count is read back.
-/

set_option autoImplicit false

namespace Tracemark.Text

def ofNat (count : Nat) : Text := Nat.toDigits 10 count

def digits? (text : Text) : Option Nat :=
  if text ≠ [] ∧ text.all Char.isDigit then some (Nat.ofDigitChars 10 text 0) else none

/-- The count that a numeral names, when it fits 64 bits. -/
def numeral? (text : Text) : Option Nat :=
  (digits? ((dropPrefix? ['+'] text).getD text)).filter (· < UInt64.size)

def bool? (text : Text) : Option Bool :=
  if text = "true".toList then some true
  else if text = "false".toList then some false
  else none

def ofBool (value : Bool) : Text := if value then "true".toList else "false".toList

theorem digits?_ofNat (count : Nat) : digits? (ofNat count) = some count := by
  have digits : (ofNat count).all Char.isDigit = true :=
    List.all_eq_true.2 fun c member => Nat.isDigit_of_mem_toDigits (by decide) (by decide) member
  rw [digits?, if_pos ⟨Nat.toDigits_ne_nil, digits⟩, ofNat,
    Nat.ofDigitChars_toDigits (by decide) (by decide)]

theorem dropPrefix?_ofNat (count : Nat) : dropPrefix? ['+'] (ofNat count) = none := by
  rw [Option.eq_none_iff_forall_ne_some]
  intro rest found
  rw [dropPrefix?_eq_some_iff] at found
  have digit : Char.isDigit '+' = true :=
    Nat.isDigit_of_mem_toDigits (b := 10) (n := count) (by decide) (by decide)
      (by rw [← ofNat, found]; simp)
  exact absurd digit (by decide)

theorem numeral?_ofNat {count : Nat} (fits : count < UInt64.size) :
    numeral? (ofNat count) = some count := by
  rw [numeral?, dropPrefix?_ofNat, Option.getD_none, digits?_ofNat, Option.filter_some,
    if_pos (decide_eq_true fits)]

theorem eq_of_numeral?_ofNat {written read : Nat} (found : numeral? (ofNat written) = some read) :
    read = written := by
  rw [numeral?, dropPrefix?_ofNat, Option.getD_none, digits?_ofNat] at found
  obtain ⟨same, -⟩ := Option.filter_eq_some_iff.1 found
  exact (Option.some.inj same).symm

theorem bool?_ofBool (value : Bool) : bool? (ofBool value) = some value := by
  cases value <;> decide

theorem bind_bool?_ofBool (value : Option Bool) : (value.map ofBool).bind bool? = value := by
  cases value with
  | none => rfl
  | some word => exact bool?_ofBool word

end Tracemark.Text
