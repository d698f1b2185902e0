import Tracemark.Stage.Whitespace
import Tracemark.Text.Digit

/-! The shapes of lines that carry markup.

Each shape is read from one line without its line feed. Markers may be indented by up to three
spaces; from four on a line is code. Only the space counts as indentation here.
-/

set_option autoImplicit false

namespace Tracemark

namespace LineShape

def unindent? (line : Text) : Option Text :=
  if (line.takeWhile (· = ' ')).length ≤ 3 then some (line.dropWhile (· = ' ')) else none

def isIndented (line : Text) : Bool := line.take tabWidth = List.replicate tabWidth ' '

def dedent (line : Text) : Text := line.drop ((line.take tabWidth).takeWhile (· = ' ')).length

def dropSpace : Text → Text
  | ' ' :: text => text
  | text => text

/-- What may close a heading: hash marks with spaces around them, and a carriage return. -/
def isHeadingEnd (text : Text) : Bool :=
  let rest := ((text.dropWhile (· = ' ')).dropWhile (· = '#')).dropWhile (· = ' ')
  rest = [] || rest = ['\r']

/-- The shortest part of a text that leaves nothing but a heading's end. -/
def beforeHeadingEnd : Text → Text
  | [] => []
  | c :: rest => if isHeadingEnd (c :: rest) then [] else c :: beforeHeadingEnd rest

structure Heading where
  level : Nat
  title : Text
  deriving DecidableEq, Repr

/-- One to six hash marks, and a title that is kept apart from them by spaces. -/
def heading? (line : Text) : Option Heading :=
  let level := min 6 (line.takeWhile (· = '#')).length
  let rest := line.drop level
  if level = 0 then none
  else if rest.head? = some ' ' then
    some ⟨level, Text.trim (beforeHeadingEnd (rest.dropWhile (· = ' ')))⟩
  else if isHeadingEnd rest then some ⟨level, []⟩
  else none

def isRule (line : Text) : Bool :=
  match unindent? line with
  | some (mark :: rest) =>
    (mark = '*' || mark = '-' || mark = '_') && rest.all (fun c => c = mark || c = ' ') &&
      2 ≤ rest.count mark
  | _ => false

inductive ListKind where
  | unordered
  | ordered
  deriving DecidableEq, Repr

def ListKind.tag : ListKind → String
  | unordered => "ul"
  | ordered => "ol"

/-- A bullet, or a number and a point, and the text behind it. -/
def marker? (text : Text) : Option (ListKind × Text) :=
  match text with
  | '*' :: rest | '+' :: rest | '-' :: rest => some (.unordered, rest)
  | _ =>
    match text.takeWhile Text.isDecimalDigit, text.dropWhile Text.isDecimalDigit with
    | _ :: _, '.' :: rest => some (.ordered, rest)
    | _, _ => none

def item? (line : Text) : Option (ListKind × Text) := do
  let (kind, rest) ← marker? (← unindent? line)
  if rest.head? = some ' ' then some (kind, rest.dropWhile (· = ' ')) else none

/-- The text of a quoted line. One space behind the mark belongs to the mark. -/
def quoted? (line : Text) : Option Text :=
  match unindent? line with
  | some ('>' :: rest) => some (dropSpace rest)
  | _ => none

/-- A text cut at a line of some shape: the text before it, what was read from it, and the text
behind it. -/
structure Cut (α : Type) where
  before : Text
  found : α
  behind : Text

def cut? {α : Type} (shape : Text → Option α) (block : Text) : Option (Cut α) :=
  let lines := block.lines
  match lines.dropWhile (shape · |>.isNone) with
  | [] => none
  | line :: behind =>
    (shape line).map fun found =>
      { before := Text.dropTrailingFeeds
          (Text.joinLines (lines.takeWhile (shape · |>.isNone)))
        found
        behind := Text.joinLines behind }

end LineShape

end Tracemark
