import Tracemark.Text.Hidden

/-! Text in double quotes, as messages show it.

A quoted text is free of line feeds and of hidden characters: a character that a reader could not
see is written by number.
-/

set_option autoImplicit false

namespace Tracemark.Text

def quoteChar (c : Char) : Text :=
  match c with
  | '"' => ['\\', '"']
  | '\\' => ['\\', '\\']
  | '\t' => ['\\', 't']
  | '\n' => ['\\', 'n']
  | '\r' => ['\\', 'r']
  | '\x00' => ['\\', '0']
  | c =>
    if isHidden c then '\\' :: 'u' :: '\x7b' :: Nat.toDigits 16 c.toNat ++ ['\x7d'] else [c]

def quote (text : Text) : Text := '"' :: text.flatMap quoteChar ++ ['"']

end Tracemark.Text
