import Tracemark.Proofs.Text.BlockLines

/-! The blocks of joined lines.

Two line feeds stand in a row where a line between two others is empty, so an empty line ends a
block, and lines that are not empty stay in one block. Blocks that are put back together are split
again as they were, where none of them ends with a line feed.
-/

set_option autoImplicit false

namespace Tracemark.Text

variable {text line first second third : Text} {lines rest parts : List Text}

theorem blocks_cons {c : Char} (notFeed : c ≠ '\n') (text : Text) :
    blocks (c :: text) = (blocks text).modifyHead (c :: ·) := by
  cases text with
  | nil => rfl
  | cons d rest => rw [blocks, if_neg fun feeds => notFeed feeds.1]

theorem blocks_feed (single : text.head? ≠ some '\n') :
    blocks ('\n' :: text) = (blocks text).modifyHead ('\n' :: ·) := by
  cases text with
  | nil => rfl
  | cons d rest =>
    rw [blocks, if_neg]
    rintro ⟨-, rfl⟩
    exact single rfl

theorem blocks_feeds (text : Text) : blocks ('\n' :: '\n' :: text) = [] :: blocks text := by
  rw [blocks, if_pos ⟨rfl, rfl⟩]

theorem blocks_append (unbroken : '\n' ∉ line) (text : Text) :
    blocks (line ++ text) = (blocks text).modifyHead (line ++ ·) := by
  induction line with
  | nil =>
    obtain ⟨block, others, same⟩ := exists_blocks_eq_cons text
    rw [List.nil_append, same, List.modifyHead_cons, List.nil_append]
  | cons c line ih =>
    rw [List.mem_cons, not_or] at unbroken
    obtain ⟨block, others, same⟩ := exists_blocks_eq_cons text
    rw [List.cons_append, blocks_cons (Ne.symm unbroken.1), ih unbroken.2, same]
    rfl

theorem blocks_of_unbroken (unbroken : '\n' ∉ line) : blocks line = [line] := by
  have written := blocks_append unbroken []
  rwa [List.append_nil, blocks, List.modifyHead_cons, List.append_nil] at written

-- An empty line between two others ends a block.
theorem blocks_joinLines_parted (unbroken : '\n' ∉ first) (third : Text) (rest : List Text) :
    blocks (joinLines (first :: [] :: third :: rest)) = first :: blocks (joinLines (third :: rest)) := by
  rw [joinLines_cons_cons, joinLines_cons_cons, List.nil_append, blocks_append unbroken,
    blocks_feeds, List.modifyHead_cons, List.append_nil]

theorem blocks_joinLines_trailing (unbroken : '\n' ∉ first) :
    blocks (joinLines [first, []]) = [first ++ ['\n']] := by
  rw [joinLines_cons_cons, joinLines_singleton, blocks_append unbroken]
  rfl

theorem blocks_joinLines_cons (unbroken : '\n' ∉ first) (unbroken' : '\n' ∉ second)
    (some_char : second ≠ []) : blocks (joinLines (first :: second :: rest)) =
      (blocks (joinLines (second :: rest))).modifyHead (first ++ '\n' :: ·) := by
  have single : (joinLines (second :: rest)).head? ≠ some '\n' := by
    obtain ⟨c, others, rfl⟩ := List.exists_cons_of_ne_nil some_char
    rw [List.mem_cons, not_or] at unbroken'
    cases rest with
    | nil => simpa [joinLines] using Ne.symm unbroken'.1
    | cons third rest => simpa [joinLines_cons_cons] using Ne.symm unbroken'.1
  obtain ⟨block, others, same⟩ := exists_blocks_eq_cons (joinLines (second :: rest))
  rw [joinLines_cons_cons, blocks_append unbroken, blocks_feed single, same]
  rfl

theorem blocks_joinLines_of_ne_nil (some_line : lines ≠ []) (unbroken : ∀ line ∈ lines, '\n' ∉ line)
    (some_char : ∀ line ∈ lines, line ≠ []) : blocks (joinLines lines) = [joinLines lines] := by
  induction lines with
  | nil => exact absurd rfl some_line
  | cons first rest ih =>
    rw [List.forall_mem_cons] at unbroken some_char
    cases rest with
    | nil =>
      rw [joinLines_singleton]
      exact blocks_of_unbroken unbroken.1
    | cons second rest =>
      rw [blocks_joinLines_cons unbroken.1 (unbroken.2 second List.mem_cons_self)
        (some_char.2 second List.mem_cons_self), ih (List.cons_ne_nil _ _) unbroken.2 some_char.2,
        List.modifyHead_cons, joinLines_cons_cons]

theorem exists_joinLines_eq_append (line : Text) (rest : List Text) :
    ∃ more, joinLines (line :: rest) = line ++ more := by
  cases rest with
  | nil => exact ⟨[], by rw [joinLines_singleton, List.append_nil]⟩
  | cons next rest => exact ⟨_, joinLines_cons_cons line next rest⟩

theorem getLast?_joinLines (unbroken : ∀ line ∈ lines, '\n' ∉ line)
    (closed : lines.getLast? ≠ some []) : (joinLines lines).getLast? ≠ some '\n' := by
  cases last : lines.getLast? with
  | none =>
    rw [List.getLast?_eq_none_iff.1 last]
    simp [joinLines]
  | some line =>
    obtain ⟨front, rfl⟩ := List.getLast?_eq_some_iff.1 last
    have some_char : line ≠ [] := fun none => closed (none ▸ last)
    have whole : ∃ before, joinLines (front ++ [line]) = before ++ line := by
      cases front with
      | nil => exact ⟨[], joinLines_singleton line⟩
      | cons first others =>
        refine ⟨joinLines (first :: others) ++ ['\n'], ?_⟩
        rw [joinLines_append (List.cons_ne_nil _ _) (List.cons_ne_nil _ _), joinLines_singleton,
          List.append_assoc, List.singleton_append]
    obtain ⟨before, same⟩ := whole
    rw [same, List.getLast?_append_of_ne_nil _ some_char]
    exact fun feed => unbroken line (by simp) (List.mem_of_getLast? feed)

theorem dropTrailingFeeds_eq_self (closed : text.getLast? ≠ some '\n') :
    text.dropTrailingFeeds = text := by
  have kept : text.reverse.dropWhile (· = '\n') = text.reverse := by
    rw [List.getLast?_eq_head?_reverse] at closed
    cases reversed : text.reverse with
    | nil => rfl
    | cons c rest =>
      rw [reversed, List.head?_cons, ne_eq, Option.some.injEq] at closed
      exact List.dropWhile_cons_of_neg (by simpa using closed)
  rw [dropTrailingFeeds, dropEndWhile, kept, List.reverse_reverse]

theorem joinBlocks_singleton (block : Text) : joinBlocks [block] = block := by simp [joinBlocks]

theorem joinBlocks_cons_cons (first second : Text) (rest : List Text) :
    joinBlocks (first :: second :: rest) = first ++ '\n' :: '\n' :: joinBlocks (second :: rest) := by
  simp [joinBlocks, List.intercalate_cons_cons]

theorem joinBlocks_fused (first second : Text) (rest : List Text) :
    joinBlocks ((first ++ '\n' :: '\n' :: second) :: rest) = joinBlocks (first :: second :: rest) := by
  cases rest with
  | nil => rw [joinBlocks_cons_cons, joinBlocks_singleton, joinBlocks_singleton]
  | cons third rest =>
    rw [joinBlocks_cons_cons, joinBlocks_cons_cons, joinBlocks_cons_cons, List.append_assoc]
    rfl

theorem blocks_append_feeds (whole : blocks first = [first]) (closed : first.getLast? ≠ some '\n')
    (text : Text) : blocks (first ++ '\n' :: '\n' :: text) = first :: blocks text := by
  induction first with
  | nil => exact blocks_feeds text
  | cons c first ih =>
    cases first with
    | nil =>
      have notFeed : c ≠ '\n' := fun feed => closed (congrArg some feed)
      rw [List.singleton_append, blocks_cons notFeed, blocks_feeds, List.modifyHead_cons]
    | cons d rest =>
      have single : ¬(c = '\n' ∧ d = '\n') := by
        rintro ⟨rfl, rfl⟩
        rw [blocks_feeds] at whole
        cases whole
      have inner : blocks (d :: rest) = [d :: rest] := by
        obtain ⟨block, others, same⟩ := exists_blocks_eq_cons (d :: rest)
        rw [blocks, if_neg single, same, List.modifyHead_cons] at whole
        cases whole
        exact same
      rw [List.getLast?_cons_cons] at closed
      rw [List.cons_append, List.cons_append, blocks, if_neg single, ← List.cons_append,
        ih inner closed, List.modifyHead_cons]

/-- Parts that are one block each, and do not end with a line feed, are the blocks of their whole. -/
theorem blocks_joinBlocks (some_part : parts ≠ []) (whole : ∀ part ∈ parts, blocks part = [part])
    (closed : ∀ part ∈ parts, part.getLast? ≠ some '\n') : blocks (joinBlocks parts) = parts := by
  induction parts with
  | nil => exact absurd rfl some_part
  | cons first rest ih =>
    rw [List.forall_mem_cons] at whole closed
    cases rest with
    | nil =>
      rw [joinBlocks_singleton]
      exact whole.1
    | cons second rest =>
      rw [joinBlocks_cons_cons, blocks_append_feeds whole.1 closed.1,
        ih (List.cons_ne_nil _ _) whole.2 closed.2]

end Tracemark.Text
