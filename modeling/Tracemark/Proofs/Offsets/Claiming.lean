import Tracemark.Offsets.Tracker
import Tracemark.Proofs.Text.BlockLines

/-! Which lines a block claims.

The blocks of a text stand on its lines one after another, with the empty line that parts two blocks
between them. While the blocks are offered in order, the unclaimed lines are those of the blocks that
are still to come. A block then claims the lines from its first to its last that is not blank, and
nothing else: the lines of the next block come after all of its own have been taken.
-/

set_option autoImplicit false

namespace Tracemark.Offsets

def numbered (line : Nat) : List Text → List (Nat × Text)
  | [] => []
  | text :: rest =>
    if text.isBlank then numbered (line + 1) rest else (line, text) :: numbered (line + 1) rest

def contentRun? (line : Nat) (lines : List Text) : Option Interval := do
  let first ← (numbered line lines).head?
  let last ← (numbered line lines).getLast?
  return ⟨first.1, last.1 + 1⟩

def numberedBlocks (line : Nat) : List Text → List (Nat × Text)
  | [] => []
  | block :: rest => numbered line block.lines ++ numberedBlocks (line + block.lines.length + 1) rest

theorem numbered_append (line : Nat) (first second : List Text) :
    numbered line (first ++ second) =
      numbered line first ++ numbered (line + first.length) second := by
  induction first generalizing line with
  | nil => rfl
  | cons text rest ih =>
    have shifted : line + 1 + rest.length = line + (rest.length + 1) := by omega
    rw [List.cons_append, numbered, numbered, ih, List.length_cons, shifted]
    split <;> rfl

theorem mem_numbered {line : Nat} {lines : List Text} {entry : Nat × Text} :
    entry ∈ numbered line lines ↔
      line ≤ entry.1 ∧ lines[entry.1 - line]? = some entry.2 ∧ entry.2.isBlank = false := by
  induction lines generalizing line with
  | nil => simp [numbered]
  | cons text rest ih =>
    have later : entry ∈ numbered (line + 1) rest ↔
        line < entry.1 ∧ (text :: rest)[entry.1 - line]? = some entry.2 ∧
          entry.2.isBlank = false := by
      rw [ih, Nat.succ_le_iff]
      apply and_congr_right
      intro behind
      obtain ⟨distance, same⟩ := Nat.exists_eq_add_of_lt behind
      have first : entry.1 - (line + 1) = distance := by omega
      have second : entry.1 - line = distance + 1 := by omega
      rw [first, second, List.getElem?_cons_succ]
    unfold numbered
    split
    · next blank =>
      rw [later, Nat.lt_iff_le_and_ne, and_assoc]
      apply and_congr_right
      intro _
      refine ⟨fun both => both.2, fun both => ⟨?_, both⟩⟩
      -- The first line itself is blank, so no entry has its number.
      intro same
      have here := both.1
      rw [same, Nat.sub_self, List.getElem?_cons_zero, Option.some.injEq] at here
      rw [here, both.2] at blank
      cases blank
    · next content =>
      rw [List.mem_cons, later]
      constructor
      · rintro (rfl | ⟨behind, both⟩)
        · simpa using content
        · exact ⟨Nat.le_of_lt behind, both⟩
      · rintro ⟨least, here, shown⟩
        rcases Nat.eq_or_lt_of_le least with same | behind
        · left
          rw [← same, Nat.sub_self, List.getElem?_cons_zero, Option.some.injEq] at here
          exact Prod.ext same.symm here.symm
        · exact .inr ⟨behind, here, shown⟩

theorem lt_of_mem_numbered {line : Nat} {lines : List Text} {entry : Nat × Text}
    (member : entry ∈ numbered line lines) : entry.1 < line + lines.length := by
  obtain ⟨least, found, -⟩ := mem_numbered.1 member
  have within := (List.getElem?_eq_some_iff.1 found).1
  omega

theorem mem_lines_of_mem_numbered {line : Nat} {lines : List Text} {entry : Nat × Text}
    (member : entry ∈ numbered line lines) : entry.2 ∈ lines :=
  List.mem_of_getElem? (mem_numbered.1 member).2.1

theorem numbered_eq_nil_iff (line : Nat) {lines : List Text} :
    numbered line lines = [] ↔ ∀ text ∈ lines, text.isBlank = true := by
  induction lines generalizing line with
  | nil => simp [numbered]
  | cons text rest ih =>
    unfold numbered
    split
    · next blank => simp [ih, blank]
    · next content => simp [content]

theorem numbered_lines (line : Nat) (text : Text) :
    numbered line text.lines = numberedBlocks line text.blocks := by
  rw [Text.lines_eq_intercalate_blocks]
  induction text.blocks generalizing line with
  | nil => rfl
  | cons block rest ih =>
    cases rest with
    | nil => simp [numberedBlocks]
    | cons next others =>
      rw [List.map_cons, List.map_cons, List.intercalate_cons_cons, List.append_assoc,
        numbered_append, List.singleton_append, numbered]
      rw [List.map_cons] at ih
      rw [numberedBlocks, ih]
      rfl

theorem numbered_joinLines {lines : List Text} (unbroken : ∀ line ∈ lines, '\n' ∉ line) :
    numbered 0 lines = numberedBlocks 0 (Text.joinLines lines).blocks := by
  rw [← numbered_lines]
  by_cases none : lines = []
  · rw [none]
    rfl
  · rw [Text.lines_joinLines none unbroken]

theorem le_of_mem_numberedBlocks {line : Nat} {blocks : List Text} {entry : Nat × Text}
    (member : entry ∈ numberedBlocks line blocks) : line ≤ entry.1 := by
  induction blocks generalizing line with
  | nil => simp [numberedBlocks] at member
  | cons block rest ih =>
    rw [numberedBlocks, List.mem_append] at member
    rcases member with here | there
    · exact (mem_numbered.1 here).1
    · have := ih there
      omega

theorem content_of_mem_numberedBlocks {line : Nat} {blocks : List Text} {entry : Nat × Text}
    (member : entry ∈ numberedBlocks line blocks) : entry.2.isBlank = false := by
  induction blocks generalizing line with
  | nil => simp [numberedBlocks] at member
  | cons block rest ih =>
    rw [numberedBlocks, List.mem_append] at member
    rcases member with here | there
    · exact (mem_numbered.1 here).2.2
    · exact ih there

/-! Runs. -/

theorem contentRun?_eq_none_iff {line : Nat} {block : Text} :
    contentRun? line block.lines = none ↔ block.isBlank = true := by
  rw [Text.isBlank_iff_forall_lines, ← numbered_eq_nil_iff line, contentRun?]
  cases numbered line block.lines with
  | nil => simp
  | cons first rest => simp [List.getLast?_cons]

theorem pairwise_numbered (line : Nat) (lines : List Text) :
    (numbered line lines).Pairwise (·.1 < ·.1) := by
  induction lines generalizing line with
  | nil => exact .nil
  | cons text rest ih =>
    unfold numbered
    split
    · exact ih (line + 1)
    · exact .cons (fun entry member => (mem_numbered.1 member).1) (ih (line + 1))

theorem exists_ends_of_contentRun? {line : Nat} {lines : List Text} {run : Interval}
    (found : contentRun? line lines = some run) :
    ∃ first last, (numbered line lines).head? = some first ∧
      (numbered line lines).getLast? = some last ∧ run = ⟨first.1, last.1 + 1⟩ := by
  obtain ⟨first, head, found⟩ := Option.bind_eq_some_iff.1 found
  obtain ⟨last, atEnd, found⟩ := Option.bind_eq_some_iff.1 found
  exact ⟨first, last, head, atEnd, (Option.some.inj found).symm⟩

section

variable {entries : List (Nat × Text)} {first last entry : Nat × Text}

theorem le_of_head? (sorted : entries.Pairwise (·.1 < ·.1)) (head : entries.head? = some first)
    (member : entry ∈ entries) : first.1 ≤ entry.1 := by
  obtain ⟨others, rfl⟩ := List.head?_eq_some_iff.1 head
  rcases List.mem_cons.1 member with rfl | later
  · exact Nat.le_refl _
  · exact Nat.le_of_lt (List.rel_of_pairwise_cons sorted later)

theorem le_of_getLast? (sorted : entries.Pairwise (·.1 < ·.1)) (atEnd : entries.getLast? = some last)
    (member : entry ∈ entries) : entry.1 ≤ last.1 := by
  obtain ⟨others, rfl⟩ := List.getLast?_eq_some_iff.1 atEnd
  rcases List.mem_append.1 member with earlier | here
  · exact Nat.le_of_lt ((List.pairwise_append.1 sorted).2.2 entry earlier last (List.mem_singleton_self _))
  · exact Nat.le_of_eq (congrArg Prod.fst (List.mem_singleton.1 here))

end

theorem mem_contentRun? {line : Nat} {lines : List Text} {run : Interval}
    (found : contentRun? line lines = some run) {entry : Nat × Text}
    (member : entry ∈ numbered line lines) : entry.1 ∈ run := by
  obtain ⟨first, last, head, atEnd, rfl⟩ := exists_ends_of_contentRun? found
  have sorted := pairwise_numbered line lines
  exact ⟨le_of_head? sorted head member, Nat.lt_succ_of_le (le_of_getLast? sorted atEnd member)⟩

theorem bounds_of_contentRun? {line : Nat} {lines : List Text} {run : Interval}
    (found : contentRun? line lines = some run) :
    line ≤ run.start ∧ run.start < run.stop ∧ run.stop ≤ line + lines.length := by
  obtain ⟨first, last, head, atEnd, same⟩ := exists_ends_of_contentRun? found
  have member := List.mem_of_getLast? atEnd
  have within := mem_contentRun? found member
  have below := lt_of_mem_numbered member
  have above := (mem_numbered.1 (List.mem_of_head? head)).1
  rw [Interval.mem_iff] at within
  subst same
  simp only at within ⊢
  omega

/-! Claims. -/

def takeLine (run : Option (Nat × Nat)) (entry : Nat × Text) : Option (Nat × Nat) :=
  some ((run.map (·.1)).getD entry.1, entry.1)

theorem claimRun_of_mem {run : Option (Nat × Nat)} {wanted : List Text} {entry : Nat × Text}
    {rest : List (Nat × Text)} (wants : entry.2 ∈ wanted) :
    claimRun run wanted (entry :: rest) =
      claimRun (takeLine run entry) (wanted.erase entry.2) rest := by
  rw [claimRun.eq_def]
  exact if_pos wants

theorem claimRun_of_not_mem {run : Option (Nat × Nat)} {wanted : List Text} {entry : Nat × Text}
    {rest : List (Nat × Text)} (unwanted : entry.2 ∉ wanted) :
    claimRun run wanted (entry :: rest) = run.or (claimRun none wanted rest) := by
  rw [claimRun.eq_def]
  cases run <;> exact if_neg unwanted

-- Lines that are all wanted are all taken, and the scan ends where nothing is wanted any more.
theorem claimRun_append {run : Option (Nat × Nat)} {wanted blanks : List Text}
    {own later : List (Nat × Text)} (all : wanted.Perm (own.map (·.2) ++ blanks))
    (blank : ∀ text ∈ blanks, text.isBlank = true)
    (content : ∀ entry ∈ later, entry.2.isBlank = false) :
    claimRun run wanted (own ++ later) = own.foldl takeLine run := by
  induction own generalizing run wanted with
  | nil =>
    -- Only blank lines are still wanted, and the later lines have content.
    have unwanted : ∀ entry ∈ later, entry.2 ∉ wanted := by
      intro entry member wants
      have isBlank := blank entry.2 (all.mem_iff.1 wants)
      rw [content entry member] at isBlank
      cases isBlank
    clear content
    induction later generalizing run with
    | nil => rfl
    | cons entry rest ih =>
      rw [List.nil_append, claimRun_of_not_mem (unwanted entry List.mem_cons_self)]
      cases run with
      | none => exact ih fun other member => unwanted other (List.mem_cons_of_mem _ member)
      | some taken => rfl
  | cons entry rest ih =>
    have wants : entry.2 ∈ wanted := all.mem_iff.2 (by simp)
    have fewer : (wanted.erase entry.2).Perm (rest.map (·.2) ++ blanks) := by
      have erased := all.erase entry.2
      rwa [List.map_cons, List.cons_append, List.erase_cons_head] at erased
    rw [List.cons_append, claimRun_of_mem wants, ih fewer]
    rfl

theorem foldl_takeLine (first last : Nat) (entries : List (Nat × Text)) :
    entries.foldl takeLine (some (first, last)) =
      some (first, (entries.getLast?.map (·.1)).getD last) := by
  induction entries generalizing last with
  | nil => rfl
  | cons entry rest ih =>
    rw [List.foldl_cons]
    change rest.foldl takeLine (some (first, entry.1)) = _
    rw [ih]
    cases rest with
    | nil => rfl
    | cons next others => simp [List.getLast?_cons]

theorem foldl_takeLine_numbered (line : Nat) (lines : List Text) :
    ((numbered line lines).foldl takeLine none).map (fun run => (⟨run.1, run.2 + 1⟩ : Interval)) =
      contentRun? line lines := by
  unfold contentRun?
  cases numbered line lines with
  | nil => rfl
  | cons first rest =>
    rw [List.foldl_cons]
    change Option.map _ (rest.foldl takeLine (some (first.1, first.1))) = _
    rw [foldl_takeLine]
    cases rest with
    | nil => rfl
    | cons next others => simp [List.getLast?_cons]

-- Lines of a block, with the blank ones put last.
theorem perm_numbered (line : Nat) (lines : List Text) :
    lines.Perm ((numbered line lines).map (·.2) ++ lines.filter (·.isBlank)) := by
  induction lines generalizing line with
  | nil => exact .nil
  | cons text rest ih =>
    unfold numbered
    cases blank : text.isBlank with
    | true =>
      rw [List.filter_cons_of_pos blank]
      exact (List.Perm.cons text (ih (line + 1))).trans List.perm_middle.symm
    | false =>
      rw [List.filter_cons_of_neg (by simp [blank])]
      exact (ih (line + 1)).cons text

theorem drop_zipIdx_filter (line count : Nat) (lines : List Text) :
    (((lines.zipIdx line).map fun (text, number) => (number, text)).drop count).filter
        (fun (_, text) => !text.isBlank) =
      (numbered line lines).filter (line + count ≤ ·.1) := by
  induction lines generalizing line count with
  | nil => simp [numbered]
  | cons text rest ih =>
    cases count with
    | zero =>
      have here := ih (line + 1) 0
      have all (least : Nat) (entries : List (Nat × Text)) (above : ∀ entry ∈ entries, least ≤ entry.1) :
          entries.filter (least + 0 ≤ ·.1) = entries :=
        List.filter_eq_self.2 fun entry member => by simpa using above entry member
      rw [List.drop_zero, all _ _ fun entry member => (mem_numbered.1 member).1] at here
      rw [all _ _ fun entry member => (mem_numbered.1 member).1, List.zipIdx_cons, List.map_cons,
        List.drop_zero, List.filter_cons, here, numbered]
      cases blank : text.isBlank <;> simp [blank]
    | succ count =>
      have same : line + (count + 1) = line + 1 + count := by omega
      have passed : ¬line + 1 + count ≤ line := by omega
      rw [List.zipIdx_cons, List.map_cons, List.drop_succ_cons, ih, numbered, same]
      split
      · rfl
      · rw [List.filter_cons_of_neg (by simpa using passed)]

namespace Tracker

def frontier (tracker : Tracker) : Nat := (tracker.lastClaimed.map (· + 1)).getD 0

theorem unclaimed_eq (tracker : Tracker) : tracker.unclaimed =
    (numbered 0 tracker.mutatedLines).filter (tracker.frontier ≤ ·.1) := by
  have same := drop_zipIdx_filter 0 tracker.frontier tracker.mutatedLines
  rw [Nat.zero_add] at same
  exact same

-- What is unclaimed once one of the unclaimed lines is the last claimed.
theorem unclaimed_claimed {tracker : Tracker} {last : Nat × Text}
    (member : last ∈ tracker.unclaimed) :
    Tracker.unclaimed { tracker with lastClaimed := some last.1 } =
      tracker.unclaimed.filter (last.1 < ·.1) := by
  have behind : tracker.frontier ≤ last.1 := by
    rw [unclaimed_eq, List.mem_filter, decide_eq_true_eq] at member
    exact member.2
  rw [unclaimed_eq, unclaimed_eq, List.filter_filter]
  apply List.filter_congr
  intro entry _
  have same : last.1 + 1 ≤ entry.1 ↔ last.1 < entry.1 ∧ tracker.frontier ≤ entry.1 := by omega
  rw [← Bool.decide_and]
  exact decide_eq_decide.2 same

variable {tracker : Tracker} {line : Nat} {block : Text} {blocks : List Text}

/-- A block claims its own run, and the lines of later blocks stay unclaimed. -/
theorem claim_eq (faces : tracker.unclaimed = numberedBlocks line (block :: blocks)) :
    tracker.claim block = (contentRun? line block.lines).map fun run =>
      (run, { tracker with lastClaimed := some (run.stop - 1) }) := by
  have taken : claimRun none block.lines tracker.unclaimed =
      (numbered line block.lines).foldl takeLine none := by
    rw [faces, numberedBlocks]
    exact claimRun_append (perm_numbered line block.lines)
      (fun text member => (List.mem_filter.1 member).2) fun _ => content_of_mem_numberedBlocks
  rw [claim, taken, ← foldl_takeLine_numbered, Option.map_map]
  rfl

theorem wants_eq (faces : tracker.unclaimed = numberedBlocks line (block :: blocks)) :
    tracker.wants block = (!tracker.guard.isPrerendering && !block.isBlank) := by
  have same : (tracker.unclaimed.any fun (_, text) => text ∈ block.lines) = !block.isBlank := by
    rw [faces, numberedBlocks]
    cases blank : block.isBlank with
    | true =>
      rw [Text.isBlank_iff_forall_lines] at blank
      rw [(numbered_eq_nil_iff _).2 blank, List.nil_append, Bool.not_true, List.any_eq_false]
      intro entry member wants
      have content := content_of_mem_numberedBlocks member
      rw [blank entry.2 (by simpa using wants)] at content
      cases content
    | false =>
      have some_line : numbered line block.lines ≠ [] := by
        intro none
        rw [numbered_eq_nil_iff, ← Text.isBlank_iff_forall_lines, blank] at none
        cases none
      obtain ⟨entry, rest, same⟩ := List.exists_cons_of_ne_nil some_line
      rw [Bool.not_false, List.any_eq_true]
      have member : entry ∈ numbered line block.lines := by simp [same]
      exact ⟨entry, List.mem_append_left _ member, decide_eq_true (mem_lines_of_mem_numbered member)⟩
  rw [wants, same]

theorem wants_of_blank (blank : block.isBlank = true) : tracker.wants block = false := by
  rw [Text.isBlank_iff_forall_lines] at blank
  have none : (tracker.unclaimed.any fun (_, text) => text ∈ block.lines) = false := by
    rw [List.any_eq_false]
    rintro ⟨number, text⟩ member inside
    have content : (!text.isBlank) = true := (List.mem_filter.1 member).2
    rw [blank text (of_decide_eq_true inside)] at content
    cases content
  rw [wants, none, Bool.and_false]

theorem unclaimed_of_claim {run : Interval}
    (faces : tracker.unclaimed = numberedBlocks line (block :: blocks))
    (found : contentRun? line block.lines = some run) :
    Tracker.unclaimed { tracker with lastClaimed := some (run.stop - 1) } =
      numberedBlocks (line + block.lines.length + 1) blocks := by
  obtain ⟨first, last, -, atEnd, rfl⟩ := exists_ends_of_contentRun? found
  have member := List.mem_of_getLast? atEnd
  have unclaimed : last ∈ tracker.unclaimed := by
    rw [faces, numberedBlocks]
    exact List.mem_append_left _ member
  rw [Nat.add_sub_cancel, unclaimed_claimed unclaimed, faces, numberedBlocks, List.filter_append]
  have own : (numbered line block.lines).filter (last.1 < ·.1) = [] := by
    rw [List.filter_eq_nil_iff]
    intro entry here
    have within := (mem_contentRun? found here).2
    simpa using Nat.lt_succ_iff.1 within
  have later : (numberedBlocks (line + block.lines.length + 1) blocks).filter (last.1 < ·.1) =
      numberedBlocks (line + block.lines.length + 1) blocks := by
    rw [List.filter_eq_self]
    intro entry there
    have behind := le_of_mem_numberedBlocks there
    have before := lt_of_mem_numbered member
    exact decide_eq_true (by omega)
  rw [own, later, List.nil_append]

theorem unclaimed_of_blank (faces : tracker.unclaimed = numberedBlocks line (block :: blocks))
    (blank : block.isBlank = true) :
    tracker.unclaimed = numberedBlocks (line + block.lines.length + 1) blocks := by
  rw [Text.isBlank_iff_forall_lines] at blank
  rw [faces, numberedBlocks, (numbered_eq_nil_iff _).2 blank, List.nil_append]

theorem unclaimed_start {tracker : Tracker} (unstarted : tracker.lastClaimed = none)
    (unbroken : ∀ line ∈ tracker.mutatedLines, '\n' ∉ line) :
    tracker.unclaimed = numberedBlocks 0 (Text.joinLines tracker.mutatedLines).blocks := by
  rw [← numbered_joinLines unbroken, unclaimed_eq, List.filter_eq_self]
  simp [frontier, unstarted]

end Tracker

end Tracemark.Offsets
