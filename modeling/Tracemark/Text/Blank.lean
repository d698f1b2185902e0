import Tracemark.Text.Basic

/-! Blank characters and trimming.

Blank means the Unicode property White_Space. The zero-width space, the byte order mark and the
four information separators U+001C to U+001F do not have it.
-/

set_option autoImplicit false

namespace Tracemark.Text

/-- The ranges of code points with the property White_Space. -/
def blankRanges : List (Nat × Nat) :=
  [(0x9, 0xd), (0x20, 0x20), (0x85, 0x85), (0xa0, 0xa0), (0x1680, 0x1680), (0x2000, 0x200a),
   (0x2028, 0x2029), (0x202f, 0x202f), (0x205f, 0x205f), (0x3000, 0x3000)]

def isBlankChar (c : Char) : Bool :=
  blankRanges.any fun (first, last) => first ≤ c.toNat && c.toNat ≤ last

def isBlank (text : Text) : Bool := text.all isBlankChar

def trimStart (text : Text) : Text := text.dropWhile isBlankChar

def trimEnd (text : Text) : Text := text.dropEndWhile isBlankChar

def trim (text : Text) : Text := trimEnd (trimStart text)

end Tracemark.Text
