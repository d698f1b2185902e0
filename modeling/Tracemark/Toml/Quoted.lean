import Tracemark.Toml.Scalar

/-! Strings of TOML.

Basic strings stand between double quotes and know escapes. Literal strings stand between single
quotes and hold what is written. Either kind may be opened by three quotes and then runs over lines;
up to two more quotes in front of the closing three belong to the text.
-/

set_option autoImplicit false

namespace Tracemark.Toml.Quoted

def isPlain (c : Char) : Bool := c = '\t' || (' ' ≤ c && c ≠ '\x7f')

def scalar? (figures : Text) : Option Char :=
  let code := Scalar.numberOf 16 figures
  if figures.all Scalar.isHexDigit ∧ (code < 0xd800 ∨ (0xdfff < code ∧ code < 0x110000)) then
    some (Char.ofNat code)
  else none

def escaped? : Char → Option Char
  | 'b' => some '\x08'
  | 't' => some '\t'
  | 'n' => some '\n'
  | 'f' => some '\x0c'
  | 'r' => some '\r'
  | '"' => some '"'
  | '\\' => some '\\'
  | _ => none

def push (c : Char) (read : Option (Text × Text)) : Option (Text × Text) :=
  read.map fun (text, rest) => (c :: text, rest)

def basic : Reader Text
  | [] => none
  | '"' :: rest => some ([], rest)
  | '\\' :: 'u' :: a :: b :: c :: d :: rest =>
    (scalar? [a, b, c, d]).bind fun scalar => push scalar (basic rest)
  | '\\' :: 'U' :: a :: b :: c :: d :: e :: f :: g :: h :: rest =>
    (scalar? [a, b, c, d, e, f, g, h]).bind fun scalar => push scalar (basic rest)
  | '\\' :: letter :: rest => (escaped? letter).bind fun c => push c (basic rest)
  | c :: rest => if c ≠ '\\' ∧ isPlain c then push c (basic rest) else none

def literal : Reader Text
  | [] => none
  | '\'' :: rest => some ([], rest)
  | c :: rest => if isPlain c then push c (literal rest) else none

/-- What follows three closing quotes: up to two quotes that belong to the text, and the rest. -/
def closing (quote : Char) : Text → Text × Text
  | c :: d :: rest =>
    if c = quote ∧ d = quote then ([quote, quote], rest)
    else if c = quote then ([quote], d :: rest)
    else ([], c :: d :: rest)
  | [c] => if c = quote then ([quote], []) else ([], [c])
  | [] => ([], [])

def isSpace (c : Char) : Bool := c = ' ' || c = '\t'

def endsLine (text : Text) : Bool :=
  match text.dropWhile isSpace with
  | '\n' :: _ => true
  | '\r' :: '\n' :: _ => true
  | _ => false

/-- A basic string over lines, behind its opening quotes. While `skipping`, spaces and line ends
behind a backslash at the end of a line are left out. -/
def basicLines (skipping : Bool) : Reader Text
  | [] => none
  | '"' :: '"' :: '"' :: rest => some (closing '"' rest)
  | '\r' :: '\n' :: rest =>
    if skipping then basicLines true rest else push '\n' (basicLines false rest)
  | '\n' :: rest => if skipping then basicLines true rest else push '\n' (basicLines false rest)
  | '\\' :: 'u' :: a :: b :: c :: d :: rest =>
    (scalar? [a, b, c, d]).bind fun scalar => push scalar (basicLines false rest)
  | '\\' :: 'U' :: a :: b :: c :: d :: e :: f :: g :: h :: rest =>
    (scalar? [a, b, c, d, e, f, g, h]).bind fun scalar => push scalar (basicLines false rest)
  | '\\' :: letter :: rest =>
    match escaped? letter with
    | some c => push c (basicLines false rest)
    | none => if endsLine (letter :: rest) then basicLines true rest else none
  | c :: rest =>
    if skipping ∧ isSpace c then basicLines true rest
    else if c ≠ '\\' ∧ isPlain c then push c (basicLines false rest)
    else none

def literalLines : Reader Text
  | [] => none
  | '\'' :: '\'' :: '\'' :: rest => some (closing '\'' rest)
  | '\r' :: '\n' :: rest => push '\n' (literalLines rest)
  | c :: rest => if c = '\n' ∨ isPlain c then push c (literalLines rest) else none

def dropLineEnd : Text → Text
  | '\n' :: rest => rest
  | '\r' :: '\n' :: rest => rest
  | text => text

def string : Reader Text
  | '"' :: '"' :: '"' :: rest => basicLines false (dropLineEnd rest)
  | '\'' :: '\'' :: '\'' :: rest => literalLines (dropLineEnd rest)
  | '"' :: rest => basic rest
  | '\'' :: rest => literal rest
  | _ => none

end Tracemark.Toml.Quoted
