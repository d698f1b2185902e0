/-! Text, its lines and its blocks.

Text is the list of its characters, so that a rule on it is a recursion which a proof can follow.
Lines are the pieces between line feeds. Blocks are the pieces between two line feeds in a row,
read from the left, so a longer run leaves its surplus at the head of the block after it.
-/

set_option autoImplicit false

namespace Tracemark

abbrev Text := List Char

namespace Text

/-- The pieces between line feeds. Empty text is one empty line. -/
def lines (text : Text) : List Text := text.splitOn '\n'

def joinLines (lines : List Text) : Text := List.intercalate ['\n'] lines

/-- The pieces between two line feeds in a row. Empty text is one empty block. -/
def blocks : Text → List Text
  | [] => [[]]
  | [c] => [[c]]
  | c :: d :: rest =>
    if c = '\n' ∧ d = '\n' then [] :: blocks rest
    else (blocks (d :: rest)).modifyHead (c :: ·)

def joinBlocks (blocks : List Text) : Text := List.intercalate ['\n', '\n'] blocks

def firstLine (text : Text) : Text := text.takeWhile (· ≠ '\n')

def dropPrefix? : (affix text : Text) → Option Text
  | [], text => some text
  | _ :: _, [] => none
  | a :: affix, c :: text => if a = c then dropPrefix? affix text else none

def dropSuffix? (affix text : Text) : Option Text :=
  (dropPrefix? affix.reverse text.reverse).map List.reverse

def dropEndWhile (chosen : Char → Bool) (text : Text) : Text :=
  (text.reverse.dropWhile chosen).reverse

def dropLeadingFeeds (text : Text) : Text := text.dropWhile (· = '\n')

def dropTrailingFeeds (text : Text) : Text := text.dropEndWhile (· = '\n')

def dropReturn (line : Text) : Text := (dropSuffix? ['\r'] line).getD line

theorem joinLines_lines (text : Text) : joinLines (lines text) = text :=
  List.intercalate_splitOn '\n'

theorem lines_joinLines {pieces : List Text} (some_piece : pieces ≠ [])
    (unbroken : ∀ piece ∈ pieces, '\n' ∉ piece) : lines (joinLines pieces) = pieces :=
  List.splitOn_intercalate '\n' unbroken some_piece

theorem lines_ne_nil (text : Text) : lines text ≠ [] := List.splitOn_ne_nil _ _

theorem blocks_ne_nil (text : Text) : blocks text ≠ [] := by
  fun_induction blocks text with
  | case1 => simp
  | case2 => simp
  | case3 => simp
  | case4 c d rest _ ih => simpa [List.modifyHead_eq_nil_iff] using ih

theorem dropPrefix?_eq_some_iff {affix text rest : Text} :
    dropPrefix? affix text = some rest ↔ text = affix ++ rest := by
  induction affix generalizing text with
  | nil => simp [dropPrefix?, eq_comm]
  | cons a affix ih =>
    cases text with
    | nil => simp [dropPrefix?]
    | cons c text =>
      by_cases same : a = c
      · simp [dropPrefix?, same, ih]
      · simp [dropPrefix?, same, Ne.symm same]

theorem dropSuffix?_eq_some_iff {affix text rest : Text} :
    dropSuffix? affix text = some rest ↔ text = rest ++ affix := by
  constructor
  · intro found
    obtain ⟨reversed, hit, rfl⟩ := Option.map_eq_some_iff.1 found
    rw [dropPrefix?_eq_some_iff] at hit
    rw [← List.reverse_reverse text, hit, List.reverse_append, List.reverse_reverse]
  · rintro rfl
    refine Option.map_eq_some_iff.2 ⟨rest.reverse, ?_, List.reverse_reverse rest⟩
    rw [dropPrefix?_eq_some_iff, List.reverse_append]

end Text

end Tracemark
