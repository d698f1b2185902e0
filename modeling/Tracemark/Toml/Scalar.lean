import Tracemark.Toml.Value

/-! Numbers, dates and times of TOML.

A reader takes something off the head of a text and gives the rest, or refuses the text. Readers may
leave anything behind; whoever calls them checks what follows.
-/

set_option autoImplicit false

namespace Tracemark.Toml

abbrev Reader (α : Type) := Text → Option (α × Text)

namespace Scalar

def isHexDigit (c : Char) : Bool :=
  c.isDigit || ('a' ≤ c && c ≤ 'f') || ('A' ≤ c && c ≤ 'F')

def hexValue (c : Char) : Nat :=
  if c.isDigit then c.toNat - '0'.toNat
  else if 'a' ≤ c then c.toNat - 'a'.toNat + 10
  else c.toNat - 'A'.toNat + 10

def numberOf (base : Nat) (digits : Text) : Nat :=
  digits.foldl (fun number c => base * number + hexValue c) 0

def moreDigits (isDigit : Char → Bool) : Text → Text × Text
  | '_' :: c :: rest =>
    if isDigit c then
      let (digits, rest) := moreDigits isDigit rest
      (c :: digits, rest)
    else ([], '_' :: c :: rest)
  | c :: rest =>
    if isDigit c then
      let (digits, rest) := moreDigits isDigit rest
      (c :: digits, rest)
    else ([], c :: rest)
  | [] => ([], [])

/-- At least one digit. Single underscores between digits are left out. -/
def digits (isDigit : Char → Bool) : Reader Text
  | c :: rest =>
    if isDigit c then
      let (digits, rest) := moreDigits isDigit rest
      some (c :: digits, rest)
    else none
  | [] => none

def wholePart : Reader Text
  | '0' :: rest => some (['0'], rest)
  | text => digits Char.isDigit text

def sign : Text → Bool × Text
  | '-' :: rest => (true, rest)
  | '+' :: rest => (false, rest)
  | text => (false, text)

def integer? (negative : Bool) (magnitude : Nat) : Option Value :=
  let number : Int := if negative then -magnitude else magnitude
  if -9223372036854775808 ≤ number ∧ number ≤ 9223372036854775807 then some (.integer number)
  else none

/-- A number with a point or an exponent. Too great a number is refused, except below zero. -/
def real? (negative : Bool) (figures : Text) (scale : Int) : Option Value :=
  match Decimal.Binary64.ofDecimal? (numberOf 10 figures) scale with
  | some number => some (.real (.finite negative number))
  | none => if negative then some (.real (.infinite true)) else none

def fraction : Reader Text
  | '.' :: rest => digits Char.isDigit rest
  | text => some ([], text)

def exponent : Reader Int
  | 'e' :: rest | 'E' :: rest => do
    let (negative, rest) := sign rest
    let (figures, rest) ← digits Char.isDigit rest
    let magnitude : Int := numberOf 10 figures
    return (if negative then -magnitude else magnitude, rest)
  | text => some (0, text)

def based (base : Nat) (isDigit : Char → Bool) : Reader Value := fun text => do
  let (figures, rest) ← digits isDigit text
  return (← integer? false (numberOf base figures), rest)

def decimal (negative : Bool) : Reader Value := fun text => do
  let (whole, rest) ← wholePart text
  match rest with
  | '.' :: _ | 'e' :: _ | 'E' :: _ =>
    let (places, rest) ← fraction rest
    let (exponent, rest) ← exponent rest
    return (← real? negative (whole ++ places) (exponent - places.length), rest)
  | _ => return (← integer? negative (numberOf 10 whole), rest)

def number : Reader Value
  | '0' :: 'x' :: rest => based 16 isHexDigit rest
  | '0' :: 'o' :: rest => based 8 (fun c => '0' ≤ c && c ≤ '7') rest
  | '0' :: 'b' :: rest => based 2 (fun c => c = '0' || c = '1') rest
  | text =>
    match sign text with
    | (negative, 'i' :: 'n' :: 'f' :: rest) => some (.real (.infinite negative), rest)
    | (_, 'n' :: 'a' :: 'n' :: rest) => some (.real .undefined, rest)
    | (negative, rest) => decimal negative rest

/-- A number of exactly `count` digits from `least` to `greatest`. -/
def field (count least greatest : Nat) : Reader Nat := fun text =>
  let figures := text.take count
  let value := numberOf 10 figures
  if figures.length = count ∧ figures.all Char.isDigit ∧ least ≤ value ∧ value ≤ greatest then
    some (value, text.drop count)
  else none

def mark (wanted : Char) : Reader Unit
  | c :: rest => if c = wanted then some ((), rest) else none
  | [] => none

def daysIn (year month : Nat) : Nat :=
  if month = 2 then
    if year % 4 = 0 ∧ (year % 100 ≠ 0 ∨ year % 400 = 0) then 29 else 28
  else if month = 4 ∨ month = 6 ∨ month = 9 ∨ month = 11 then 30
  else 31

def date : Reader Unit := fun text => do
  let (year, rest) ← field 4 0 9999 text
  let (_, rest) ← mark '-' rest
  let (month, rest) ← field 2 1 12 rest
  let (_, rest) ← mark '-' rest
  let (_, rest) ← field 2 1 (daysIn year month) rest
  return ((), rest)

def time : Reader Unit := fun text => do
  let (_, rest) ← field 2 0 23 text
  let (_, rest) ← mark ':' rest
  let (_, rest) ← field 2 0 59 rest
  let (_, rest) ← mark ':' rest
  let (_, rest) ← field 2 0 60 rest
  match rest with
  | '.' :: c :: more => return ((), if c.isDigit then more.dropWhile Char.isDigit else rest)
  | _ => return ((), rest)

def zone : Reader Unit
  | 'Z' :: rest | 'z' :: rest => some ((), rest)
  | '+' :: rest | '-' :: rest => do
    let (_, rest) ← field 2 0 23 rest
    let (_, rest) ← mark ':' rest
    let (_, rest) ← field 2 0 59 rest
    return ((), rest)
  | text => some ((), text)

def datetime : Reader Value := fun text =>
  match date text with
  | none => (time text).map fun (_, rest) => (.datetime, rest)
  | some (_, rest) =>
    let withTime : Option Text :=
      match rest with
      | c :: more =>
        if c = 'T' ∨ c = 't' ∨ c = ' ' then (time more).bind fun (_, rest) => (zone rest).map (·.2)
        else none
      | [] => none
    some (.datetime, withTime.getD rest)

end Scalar

end Tracemark.Toml
