import Mathlib.Data.List.Basic
import Tracemark.Text.Blank

/-! Lines and blocks of one text.

The lines of a text are those of its blocks in order, with the empty line that parts two blocks put
back between them. A text is blank when all its lines are, and the lines of a text are together as
long as the text but for the line feeds between them.
-/

set_option autoImplicit false

namespace Tracemark.Text

theorem lines_cons (c : Char) (text : Text) :
    lines (c :: text) = if c = '\n' then [] :: lines text else (lines text).modifyHead (c :: ·) := by
  simp only [lines, List.splitOn_cons_eq_if_modifyHead, beq_iff_eq]

theorem lines_feed (text : Text) : lines ('\n' :: text) = [] :: lines text := by
  simp [lines_cons]

theorem exists_lines_eq_cons (text : Text) : ∃ first rest, lines text = first :: rest :=
  List.exists_cons_of_ne_nil (lines_ne_nil text)

theorem exists_blocks_eq_cons (text : Text) : ∃ first rest, blocks text = first :: rest :=
  List.exists_cons_of_ne_nil (blocks_ne_nil text)

theorem lines_modifyHead_blocks (c : Char) (notFeed : c ≠ '\n') (blocks : List Text)
    (some_block : blocks ≠ []) :
    List.intercalate [[]] ((blocks.modifyHead (c :: ·)).map lines) =
      (List.intercalate [[]] (blocks.map lines)).modifyHead (c :: ·) := by
  obtain ⟨first, rest, rfl⟩ := List.exists_cons_of_ne_nil some_block
  obtain ⟨line, others, same⟩ := exists_lines_eq_cons first
  cases rest <;> simp [lines_cons, notFeed, same, List.intercalate_cons_cons]

theorem lines_modifyHead_feed (blocks : List Text) (some_block : blocks ≠ []) :
    List.intercalate [[]] ((blocks.modifyHead ('\n' :: ·)).map lines) =
      [] :: List.intercalate [[]] (blocks.map lines) := by
  obtain ⟨first, rest, rfl⟩ := List.exists_cons_of_ne_nil some_block
  cases rest <;> simp [lines_feed, List.intercalate_cons_cons]

/-- Between the lines of two blocks stands the one empty line that parts them. -/
theorem lines_eq_intercalate_blocks (text : Text) :
    text.lines = List.intercalate [[]] (text.blocks.map lines) := by
  fun_induction blocks text with
  | case1 => simp
  | case2 c => simp
  | case3 c d rest feeds ih =>
    obtain ⟨rfl, rfl⟩ := feeds
    obtain ⟨first, others, same⟩ := exists_blocks_eq_cons rest
    rw [lines_feed, lines_feed, ih, same]
    simp [List.intercalate_cons_cons, lines]
  | case4 c d rest single ih =>
    by_cases feed : c = '\n'
    · subst feed
      rw [lines_modifyHead_feed _ (blocks_ne_nil _), ← ih, lines_feed]
    · rw [lines_modifyHead_blocks c feed _ (blocks_ne_nil _), ← ih, lines_cons, if_neg feed]

theorem not_mem_of_mem_lines {text line : Text} (member : line ∈ text.lines) : '\n' ∉ line := by
  induction text generalizing line with
  | nil => simp_all [lines]
  | cons c text ih =>
    obtain ⟨first, rest, same⟩ := exists_lines_eq_cons text
    rw [lines_cons] at member
    split at member
    · rcases List.mem_cons.1 member with rfl | later
      · simp
      · exact ih later
    · next notFeed =>
      rw [same, List.modifyHead_cons] at member
      rcases List.mem_cons.1 member with rfl | later
      · have unbroken : '\n' ∉ first := ih (same ▸ List.mem_cons_self)
        simp [unbroken, Ne.symm notFeed]
      · exact ih (same ▸ List.mem_cons_of_mem _ later)

theorem isBlank_iff_forall_lines {text : Text} :
    text.isBlank = true ↔ ∀ line ∈ text.lines, line.isBlank = true := by
  induction text with
  | nil => simp [lines, isBlank]
  | cons c text ih =>
    obtain ⟨first, rest, same⟩ := exists_lines_eq_cons text
    rw [lines_cons]
    split
    · next feed =>
      subst feed
      simpa [isBlank, isBlankChar, blankRanges] using ih
    · simp only [same, List.modifyHead_cons, List.forall_mem_cons] at ih ⊢
      simp only [isBlank, List.all_cons, Bool.and_eq_true] at ih ⊢
      rw [ih]
      tauto

theorem isBlank_of_mem_blocks {text part : Text} (blank : text.isBlank = true)
    (member : part ∈ text.blocks) : part.isBlank = true := by
  unfold isBlank at blank ⊢
  fun_induction blocks text generalizing part with
  | case1 =>
    rw [List.mem_singleton.1 member]
    rfl
  | case2 c =>
    rw [List.mem_singleton.1 member]
    exact blank
  | case3 c d rest _ ih =>
    simp only [List.all_cons, Bool.and_eq_true] at blank
    rcases List.mem_cons.1 member with rfl | later
    · rfl
    · exact ih blank.2.2 later
  | case4 c d rest _ ih =>
    rw [List.all_cons, Bool.and_eq_true] at blank
    obtain ⟨first, others, same⟩ := exists_blocks_eq_cons (d :: rest)
    rw [same] at ih member
    rw [List.modifyHead_cons] at member
    rcases List.mem_cons.1 member with rfl | later
    · rw [List.all_cons, Bool.and_eq_true]
      exact ⟨blank.1, ih blank.2 List.mem_cons_self⟩
    · exact ih blank.2 (List.mem_cons_of_mem _ later)

theorem joinLines_singleton (line : Text) : joinLines [line] = line := by simp [joinLines]

theorem joinLines_cons_cons (first second : Text) (rest : List Text) :
    joinLines (first :: second :: rest) = first ++ '\n' :: joinLines (second :: rest) := by
  simp [joinLines, List.intercalate_cons_cons]

theorem joinLines_append {first second : List Text} (some_first : first ≠ [])
    (some_second : second ≠ []) :
    joinLines (first ++ second) = joinLines first ++ '\n' :: joinLines second := by
  induction first with
  | nil => exact absurd rfl some_first
  | cons line rest ih =>
    cases rest with
    | nil =>
      obtain ⟨next, others, rfl⟩ := List.exists_cons_of_ne_nil some_second
      simp [joinLines, List.intercalate_cons_cons]
    | cons next others =>
      rw [List.cons_append, List.cons_append, joinLines_cons_cons, joinLines_cons_cons,
        ← List.cons_append, ih (List.cons_ne_nil _ _), List.append_assoc, List.cons_append]

def spread : List Text → Nat
  | [] => 0
  | line :: rest => line.length + 1 + spread rest

@[simp] theorem spread_nil : spread [] = 0 := rfl

@[simp] theorem spread_cons (line : Text) (rest : List Text) :
    spread (line :: rest) = line.length + 1 + spread rest :=
  rfl

@[simp] theorem spread_append (first second : List Text) :
    spread (first ++ second) = spread first + spread second := by
  induction first with
  | nil => simp
  | cons line rest ih =>
    rw [List.cons_append, spread_cons, spread_cons, ih]
    omega

theorem length_joinLines {lines : List Text} (some_line : lines ≠ []) :
    (joinLines lines).length + 1 = spread lines := by
  induction lines with
  | nil => exact absurd rfl some_line
  | cons line rest ih =>
    cases rest with
    | nil => simp [joinLines]
    | cons next others =>
      rw [joinLines_cons_cons, spread_cons, ← ih (List.cons_ne_nil _ _)]
      simp only [List.length_append, List.length_cons]
      omega

theorem spread_lines (text : Text) : spread text.lines = text.length + 1 := by
  rw [← length_joinLines (lines_ne_nil text), joinLines_lines]

theorem spread_map_le {change : Text → Text} (shorter : ∀ line, (change line).length ≤ line.length)
    (lines : List Text) : spread (lines.map change) ≤ spread lines := by
  induction lines with
  | nil => simp
  | cons line rest ih =>
    have := shorter line
    simp only [List.map_cons, spread_cons]
    omega

theorem spread_takeWhile_add_dropWhile (chosen : Text → Bool) (lines : List Text) :
    spread (lines.takeWhile chosen) + spread (lines.dropWhile chosen) = spread lines := by
  rw [← spread_append, List.takeWhile_append_dropWhile]

theorem firstLine_eq_head_lines (text : Text) : text.lines.head? = some text.firstLine := by
  induction text with
  | nil => simp [lines, firstLine]
  | cons c text ih =>
    rw [lines_cons]
    by_cases feed : c = '\n'
    · simp [feed, firstLine]
    · obtain ⟨first, rest, same⟩ := exists_lines_eq_cons text
      rw [same] at ih ⊢
      simp_all [firstLine]

end Tracemark.Text
