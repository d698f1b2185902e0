import Mathlib.Data.List.Chain
import Tracemark.Proofs.Stage.Unbroken
import Tracemark.Proofs.Text.JoinedBlocks
import Tracemark.Proofs.Text.Kept

/-! Placeholders in joined lines.

A placeholder is read back from its own line, with blanks around it, and from no text without U+0002.
When the lines next to placeholders are empty, no placeholder shares a block with another line, so the
placeholders are found in the blocks of the joined lines as they are in the lines themselves.
-/

set_option autoImplicit false

namespace Tracemark

namespace Text

variable {text : Text} {c : Char}

theorem trim_cons_of_blank (blank : isBlankChar c = true) (text : Text) :
    trim (c :: text) = trim text := by
  rw [trim, trimStart, List.dropWhile_cons_of_pos blank]
  rfl

theorem trim_append_of_blank (blank : isBlankChar c = true) (text : Text) :
    trim (text ++ [c]) = trim text := by
  rw [trim, trim, trimStart, List.dropWhile_append]
  split
  · next nothing =>
    have started : text.trimStart = [] := List.isEmpty_iff.1 nothing
    rw [started, List.dropWhile_cons_of_pos blank]
    rfl
  · exact List.rdropWhile_concat_pos _ _ _ blank

theorem trimEnd_of_visible (visible : isBlankChar c = false) (text : Text) :
    trimEnd (text ++ [c]) = text ++ [c] :=
  List.rdropWhile_concat_neg _ _ _ (by simp [visible])

theorem trim_of_visible {first last : Char} (visible : isBlankChar first = false)
    (visible' : isBlankChar last = false) (text : Text) :
    trim (first :: (text ++ [last])) = first :: (text ++ [last]) := by
  rw [trim, trimStart, List.dropWhile_cons_of_neg (by simp [visible])]
  exact trimEnd_of_visible visible' (first :: text)

end Text

namespace Stash

variable {line text : Text} {number : Nat}

theorem placeholder?_placeholder (fits : number < UInt64.size) :
    placeholder? (placeholder number) = some number := by
  have trimmed : (placeholder number).trim = placeholder number :=
    Text.trim_of_visible rfl rfl ("stash:".toList ++ Text.ofNat number)
  have opened : Text.dropPrefix? openMark (placeholder number) =
      some (Text.ofNat number ++ closeMark) := by
    rw [Text.dropPrefix?_eq_some_iff, placeholder, List.append_assoc]
  have closed : Text.dropSuffix? closeMark (Text.ofNat number ++ closeMark) =
      some (Text.ofNat number) :=
    Text.dropSuffix?_eq_some_iff.2 rfl
  simp only [placeholder?, trimmed, opened, closed, Option.bind_eq_bind, Option.bind_some,
    Text.numeral?_ofNat fits]

theorem placeholder?_of_not_mem (foreign : '\x02' ∉ line) : placeholder? line = none := by
  have closed : Text.dropPrefix? openMark line.trim = none := by
    rw [Option.eq_none_iff_forall_ne_some]
    intro rest found
    rw [Text.dropPrefix?_eq_some_iff] at found
    have opens : '\x02' ∈ line.trim := found ▸ List.mem_cons_self
    exact foreign (Text.trim_subset line opens)
  rw [placeholder?, closed]
  rfl

theorem placeholder?_feed (text : Text) : placeholder? ('\n' :: text) = placeholder? text := by
  rw [placeholder?, Text.trim_cons_of_blank rfl, ← placeholder?]

theorem placeholder?_append_feed (text : Text) : placeholder? (text ++ ['\n']) = placeholder? text := by
  rw [placeholder?, Text.trim_append_of_blank rfl, ← placeholder?]

theorem placeholder?_nil : placeholder? [] = none := placeholder?_of_not_mem List.not_mem_nil

def IsPlaceholder (line : Text) : Prop := ∃ number, line = placeholder number

theorem IsPlaceholder.ne_nil (marked : IsPlaceholder line) : line ≠ [] := by
  obtain ⟨number, rfl⟩ := marked
  exact List.cons_ne_nil _ _

/-- Neighbouring lines of which one is empty when either is a placeholder. -/
def Apart (first second : Text) : Prop :=
  IsPlaceholder first ∨ IsPlaceholder second → first = [] ∨ second = []

theorem apart_nil_left (line : Text) : Apart [] line := fun _ => .inl rfl

theorem apart_nil_right (line : Text) : Apart line [] := fun _ => .inr rfl

structure Spaced (lines : List Text) : Prop where
  unbroken : Unbroken lines
  known : ∀ line ∈ lines, '\x02' ∉ line ∨ IsPlaceholder line
  apart : lines.IsChain Apart

namespace Spaced

variable {lines rest : List Text} {first second : Text}

theorem tail (spaced : Spaced (first :: rest)) : Spaced rest where
  unbroken line member := spaced.unbroken line (List.mem_cons_of_mem _ member)
  known line member := spaced.known line (List.mem_cons_of_mem _ member)
  apart := spaced.apart.tail

theorem head_unbroken (spaced : Spaced (first :: rest)) : '\n' ∉ first :=
  spaced.unbroken first List.mem_cons_self

-- A line that is not empty is followed by its like.
theorem not_mem_of_follows (spaced : Spaced (first :: second :: rest)) (some_char : first ≠ [])
    (some_char' : second ≠ []) : '\x02' ∉ first ∧ '\x02' ∉ second := by
  have apart : Apart first second := (List.isChain_cons_cons.1 spaced.apart).1
  have unmarked : ¬(IsPlaceholder first ∨ IsPlaceholder second) := fun marked =>
    (apart marked).elim some_char some_char'
  rw [not_or] at unmarked
  exact ⟨(spaced.known first List.mem_cons_self).resolve_right unmarked.1,
    (spaced.known second (List.mem_cons_of_mem _ List.mem_cons_self)).resolve_right unmarked.2⟩

/-- The first block has no placeholder in it when it starts with a line that is neither empty nor a
placeholder. -/
theorem exists_head (spaced : Spaced (first :: rest)) (some_char : first ≠ [])
    (foreign : '\x02' ∉ first) :
    ∃ block others, Text.blocks (Text.joinLines (first :: rest)) = block :: others ∧ '\x02' ∉ block := by
  induction rest generalizing first with
  | nil =>
    rw [Text.joinLines_singleton, Text.blocks_of_unbroken spaced.head_unbroken]
    exact ⟨first, [], rfl, foreign⟩
  | cons second rest ih =>
    match second, rest with
    | [], [] =>
      rw [Text.blocks_joinLines_trailing spaced.head_unbroken]
      exact ⟨_, [], rfl, by simpa using foreign⟩
    | [], third :: rest =>
      rw [Text.blocks_joinLines_parted spaced.head_unbroken]
      exact ⟨first, _, rfl, foreign⟩
    | c :: second, rest =>
      have foreign' := (spaced.not_mem_of_follows some_char (List.cons_ne_nil c second)).2
      obtain ⟨block, others, same, clear⟩ := ih spaced.tail (List.cons_ne_nil _ _) foreign'
      rw [Text.blocks_joinLines_cons spaced.head_unbroken spaced.tail.head_unbroken
        (List.cons_ne_nil _ _), same]
      exact ⟨_, others, rfl, by simp [foreign, clear]⟩

theorem filterMap_blocks : ∀ {lines : List Text}, Spaced lines →
    (Text.blocks (Text.joinLines lines)).filterMap placeholder? = lines.filterMap placeholder?
  | [], _ => by
    rw [List.filterMap_nil, Text.joinLines, List.intercalate_nil, Text.blocks, List.filterMap_cons,
      placeholder?_nil]
    rfl
  | [line], spaced => by
    rw [Text.joinLines_singleton, Text.blocks_of_unbroken spaced.head_unbroken]
  | [first, []], spaced => by
    rw [Text.blocks_joinLines_trailing spaced.head_unbroken]
    simp [List.filterMap_cons, placeholder?_append_feed, placeholder?_nil]
  | first :: [] :: third :: rest, spaced => by
    rw [Text.blocks_joinLines_parted spaced.head_unbroken, List.filterMap_cons,
      filterMap_blocks spaced.tail.tail]
    simp [List.filterMap_cons, placeholder?_nil]
  | [] :: (c :: second) :: rest, spaced => by
    -- The line feed at the head of the block is a blank around what the block holds.
    obtain ⟨block, others, same⟩ := Text.exists_blocks_eq_cons (Text.joinLines ((c :: second) :: rest))
    have later := filterMap_blocks spaced.tail
    rw [Text.blocks_joinLines_cons spaced.head_unbroken spaced.tail.head_unbroken
      (List.cons_ne_nil _ _), same, List.filterMap_cons_none placeholder?_nil, ← later, same,
      List.modifyHead_cons, List.nil_append, List.filterMap_cons, placeholder?_feed,
      List.filterMap_cons]
  | (d :: first) :: (c :: second) :: rest, spaced => by
    have foreign := spaced.not_mem_of_follows (List.cons_ne_nil d first) (List.cons_ne_nil c second)
    obtain ⟨block, others, same, clear⟩ :=
      spaced.tail.exists_head (List.cons_ne_nil c second) foreign.2
    have later := filterMap_blocks spaced.tail
    have joined : '\x02' ∉ (d :: first) ++ '\n' :: block := by
      intro member
      rcases List.mem_append.1 member with front | behind
      · exact foreign.1 front
      · exact clear (List.mem_of_ne_of_mem (by decide) behind)
    rw [same, List.filterMap_cons_none (placeholder?_of_not_mem clear)] at later
    rw [Text.blocks_joinLines_cons spaced.head_unbroken spaced.tail.head_unbroken
      (List.cons_ne_nil _ _), same, List.modifyHead_cons,
      List.filterMap_cons_none (placeholder?_of_not_mem joined), later,
      List.filterMap_cons_none (placeholder?_of_not_mem foreign.1)]

end Spaced

end Stash

end Tracemark
