import Mathlib.Data.List.DropRight
import Tracemark.Proofs.Text.BlockLines
import Tracemark.Text.Digit

/-! What is kept of a text when it is trimmed, cut and put back together.

Blanks, digits and the characters of markup may be taken from a text or be written into it. All other
characters are kept, and in their order: a text keeps what its trimmed form, its lines and its blocks
keep.
-/

set_option autoImplicit false

namespace Tracemark.Text

theorem trim_subset (text : Text) : text.trim ⊆ text := by
  intro c member
  have started : c ∈ text.trimStart := (List.rdropWhile_prefix isBlankChar _).subset member
  exact (List.dropWhile_sublist isBlankChar).subset started

theorem trimStart_trim (text : Text) : text.trim.trimStart = text.trim := by
  rw [trimStart, List.dropWhile_eq_self_iff]
  intro some_char
  have left : text.trim <+: text.trimStart := List.rdropWhile_prefix _ _
  have some_left : 0 < text.trimStart.length := some_char.trans_le left.length_le
  -- The first character is the one that the trimmed start left.
  have first : text.trim[0] = text.trimStart[0] := left.getElem some_char
  have fixed : text.trimStart.dropWhile isBlankChar = text.trimStart := List.dropWhile_idempotent _ _
  rw [first]
  exact List.dropWhile_eq_self_iff.1 fixed _

theorem trim_trim (text : Text) : text.trim.trim = text.trim := by
  rw [trim, trimStart_trim]
  exact List.rdropWhile_idempotent _ _

def marks : List Char := ['#', '*', '+', '-', '_', '>', '.']

/-- Characters that are neither blanks, nor digits, nor marks. -/
def isKept (c : Char) : Bool := !(isBlankChar c || isDecimalDigit c || c ∈ marks)

def kept (text : Text) : Text := text.filter isKept

theorem isKept_of_blank {c : Char} (blank : isBlankChar c = true) : isKept c = false := by
  simp [isKept, blank]

theorem isKept_of_digit {c : Char} (digit : isDecimalDigit c = true) : isKept c = false := by
  simp [isKept, digit]

theorem isKept_of_mark {c : Char} (mark : c ∈ marks) : isKept c = false := by
  simp [isKept, mark]

@[simp] theorem kept_nil : kept [] = [] := rfl

@[simp] theorem kept_append (first second : Text) : kept (first ++ second) = kept first ++ kept second :=
  List.filter_append ..

theorem kept_cons_of_passed {c : Char} (passed : isKept c = false) (text : Text) :
    kept (c :: text) = kept text :=
  List.filter_cons_of_neg (by simp [passed])

theorem kept_eq_nil {text : Text} (passed : ∀ c ∈ text, isKept c = false) : kept text = [] := by
  rw [kept, List.filter_eq_nil_iff]
  intro c member
  simp [passed c member]

@[simp] theorem kept_feed (text : Text) : kept ('\n' :: text) = kept text :=
  kept_cons_of_passed (isKept_of_blank rfl) text

theorem kept_of_isBlank {text : Text} (blank : text.isBlank = true) : kept text = [] :=
  kept_eq_nil fun c member => isKept_of_blank (List.all_eq_true.1 blank c member)

section

variable {passed : Char → Bool} (passes : ∀ c, passed c = true → isKept c = false)

include passes

theorem kept_takeWhile (text : Text) : kept (text.takeWhile passed) = [] :=
  kept_eq_nil fun c member => passes c (List.mem_takeWhile_imp member)

theorem kept_dropWhile (text : Text) : kept (text.dropWhile passed) = kept text := by
  calc kept (text.dropWhile passed)
      = kept (text.takeWhile passed) ++ kept (text.dropWhile passed) := by
        rw [kept_takeWhile passes, List.nil_append]
    _ = kept text := by rw [← kept_append, List.takeWhile_append_dropWhile]

theorem kept_dropEndWhile (text : Text) : kept (text.dropEndWhile passed) = kept text := by
  have reversed := congrArg List.reverse (kept_dropWhile passes text.reverse)
  rwa [kept, ← List.filter_reverse, kept, ← List.filter_reverse, List.reverse_reverse] at reversed

end

theorem isKept_of_feed (c : Char) (feed : decide (c = '\n') = true) : isKept c = false := by
  cases of_decide_eq_true feed
  exact isKept_of_blank rfl

theorem isKept_of_space (c : Char) (space : decide (c = ' ') = true) : isKept c = false := by
  cases of_decide_eq_true space
  exact isKept_of_blank rfl

@[simp] theorem kept_dropLeadingFeeds (text : Text) : kept text.dropLeadingFeeds = kept text :=
  kept_dropWhile isKept_of_feed text

@[simp] theorem kept_dropTrailingFeeds (text : Text) : kept text.dropTrailingFeeds = kept text :=
  kept_dropEndWhile isKept_of_feed text

@[simp] theorem kept_trim (text : Text) : kept text.trim = kept text := by
  rw [trim, trimEnd, kept_dropEndWhile fun _ => isKept_of_blank, trimStart,
    kept_dropWhile fun _ => isKept_of_blank]

@[simp] theorem kept_joinLines (lines : List Text) : kept (joinLines lines) = kept lines.flatten := by
  induction lines with
  | nil => rfl
  | cons line rest ih =>
    cases rest with
    | nil => simp [joinLines]
    | cons next others =>
      rw [joinLines_cons_cons, kept_append, kept_feed, ih, ← kept_append]
      rfl

@[simp] theorem kept_lines (text : Text) : kept text.lines.flatten = kept text := by
  rw [← kept_joinLines, joinLines_lines]

@[simp] theorem kept_blocks (text : Text) : kept text.blocks.flatten = kept text := by
  fun_induction blocks text with
  | case1 => rfl
  | case2 c => simp
  | case3 c d rest feeds ih =>
    obtain ⟨rfl, rfl⟩ := feeds
    simpa using ih
  | case4 c d rest _ ih =>
    obtain ⟨first, others, same⟩ := exists_blocks_eq_cons (d :: rest)
    rw [same] at ih ⊢
    rw [List.modifyHead_cons, List.flatten_cons, List.cons_append, ← List.singleton_append, kept_append,
      ← List.flatten_cons, ih, ← kept_append]
    rfl

theorem kept_flatMap_blocks (texts : List Text) :
    kept (texts.flatMap blocks).flatten = kept texts.flatten := by
  induction texts with
  | nil => rfl
  | cons text texts ih => simp [ih]

theorem kept_map {change : Text → Text} (keeps : ∀ line, kept (change line) = kept line)
    (lines : List Text) : kept (lines.map change).flatten = kept lines.flatten := by
  induction lines with
  | nil => rfl
  | cons line rest ih => simp [keeps, ih]

end Tracemark.Text
