import Tracemark.Proofs.Grammar.Listing

/-! Code that is written by indentation.

A piece of code is written as a block by four spaces in front of each of its lines. Whatever the lines
look like, no handler but the one for code is offered the block, and the indentation is taken off again
as it was put on. Behind the first piece each one goes on with the code that is there, so pieces with an
empty line between them become one code element that holds all of them, character for character.
-/

set_option autoImplicit false

namespace Tracemark

open Tracemark.Dispatch (run weight)
open Tracemark.LineShape (dedent indented isIndented)

namespace LineShape

theorem isIndented_append (line more : Text) : isIndented (indented line ++ more) = true := by
  simp [isIndented, indented]

theorem isIndented_indented (line : Text) : isIndented (indented line) = true := by
  have same := isIndented_append line []
  rwa [List.append_nil] at same

theorem isBlank_indented (line : Text) : (indented line).isBlank = line.isBlank := rfl

end LineShape

namespace Grammar

/-- A piece of code as a block of its own: it has something to see, and does not end with an empty
line. -/
structure Codable (lines : List Text) : Prop where
  unbroken : ∀ line ∈ lines, '\n' ∉ line
  visible : ∃ line ∈ lines, line.isBlank = false
  closed : lines.getLast? ≠ some []

instance (lines : List Text) : Decidable (Codable lines) :=
  decidable_of_iff ((∀ line ∈ lines, '\n' ∉ line) ∧ (∃ line ∈ lines, line.isBlank = false) ∧
      lines.getLast? ≠ some [])
    ⟨fun all => ⟨all.1, all.2.1, all.2.2⟩,
      fun codable => ⟨codable.unbroken, codable.visible, codable.closed⟩⟩

def codeBlock (lines : List Text) : Text := Text.joinLines (lines.map indented)

def coded (pieces : List (List Text)) : Text := Text.joinBlocks (pieces.map codeBlock)

variable {lines : List Text} {pieces : List (List Text)} {session : Session} {parent : NodeId}

/-! Blocks. -/

theorem Codable.ne_nil (codable : Codable lines) : lines ≠ [] := by
  obtain ⟨line, member, -⟩ := codable.visible
  exact List.ne_nil_of_mem member

theorem Codable.unbroken_indented (codable : Codable lines) :
    ∀ line ∈ lines.map indented, '\n' ∉ line := by
  rw [List.forall_mem_map]
  intro line member
  simpa [indented, tabWidth, List.replicate] using codable.unbroken line member

theorem Codable.lines_codeBlock (codable : Codable lines) :
    (codeBlock lines).lines = lines.map indented :=
  Text.lines_joinLines (by simpa using codable.ne_nil) codable.unbroken_indented

theorem Codable.blocks_codeBlock (codable : Codable lines) :
    (codeBlock lines).blocks = [codeBlock lines] := by
  apply Text.blocks_joinLines_of_ne_nil (by simpa using codable.ne_nil) codable.unbroken_indented
  simp [indented, tabWidth, List.replicate]

theorem Codable.getLast?_codeBlock (codable : Codable lines) :
    (codeBlock lines).getLast? ≠ some '\n' := by
  apply Text.getLast?_joinLines codable.unbroken_indented
  simp [indented, tabWidth, List.replicate]

theorem blocks_coded (some_piece : pieces ≠ []) (codable : ∀ lines ∈ pieces, Codable lines) :
    (coded pieces).blocks = pieces.map codeBlock := by
  apply Text.blocks_joinBlocks (by simpa using some_piece)
  · rw [List.forall_mem_map]
    exact fun lines member => (codable lines member).blocks_codeBlock
  · rw [List.forall_mem_map]
    exact fun lines member => (codable lines member).getLast?_codeBlock

/-! One block. -/

theorem Codable.exists_codeBlock_eq_append (codable : Codable lines) :
    ∃ first more, codeBlock lines = indented first ++ more := by
  obtain ⟨first, rest, rfl⟩ := List.exists_cons_of_ne_nil codable.ne_nil
  exact ⟨first, Text.exists_joinLines_eq_append (indented first) (rest.map indented)⟩

theorem Codable.accepted (codable : Codable lines) (session : Session) (parent : NodeId) :
    indentedCode.accepts session parent (codeBlock lines) = true := by
  obtain ⟨first, more, same⟩ := codable.exists_codeBlock_eq_append
  rw [same]
  exact LineShape.isIndented_append first more

theorem Codable.rejected (codable : Codable lines) (session : Session) (parent : NodeId) :
    ∀ handler ∈ [empty], handler.accepts session parent (codeBlock lines) = false := by
  have visible : (codeBlock lines).isBlank = false := by
    obtain ⟨line, member, seen⟩ := codable.visible
    rw [Bool.eq_false_iff]
    intro blank
    rw [Text.isBlank_iff_forall_lines, codable.lines_codeBlock, List.forall_mem_map] at blank
    have unseen := blank line member
    rw [LineShape.isBlank_indented, seen] at unseen
    cases unseen
  have led : (codeBlock lines).head? = some ' ' := by
    obtain ⟨first, more, same⟩ := codable.exists_codeBlock_eq_append
    rw [same]
    rfl
  intro handler member
  rw [List.mem_singleton.1 member]
  simp [empty, visible, led]

theorem Codable.codeOf_codeBlock (codable : Codable lines) :
    codeOf (codeBlock lines) = Text.joinLines lines := by
  have taken : (lines.map indented).takeWhile (fun line => isIndented line || line.isBlank) =
      lines.map indented := by
    rw [List.takeWhile_eq_self_iff, List.forall_mem_map]
    intro line _
    rw [LineShape.isIndented_indented, Bool.true_or]
  have restored : (lines.map indented).map dedent = lines := by
    simp [Function.comp_def, LineShape.dedent_indented]
  rw [codeOf, codable.lines_codeBlock, taken, restored]
  exact Text.dropTrailingFeeds_eq_self (Text.getLast?_joinLines codable.unbroken codable.closed)

theorem Codable.behindCode_codeBlock (codable : Codable lines) : behindCode (codeBlock lines) = [] := by
  have nothing : (lines.map indented).dropWhile (fun line => isIndented line || line.isBlank) = [] := by
    rw [List.dropWhile_eq_nil_iff, List.forall_mem_map]
    intro line _
    rw [LineShape.isIndented_indented, Bool.true_or]
  simp only [behindCode, codable.lines_codeBlock, nothing]

/-! Runs. -/

def codeAlone (code : Text) : Tree := withCode .empty Tree.root code

theorem Codable.run_first (codable : Codable lines) (parser : Reparse) (session : Session)
    (rest : List Text) :
    indentedCode.run parser (session.setTree .empty) Tree.root (codeBlock lines) rest =
      .ok (.handled (session.setTree (codeAlone (Text.joinLines lines))) rest) := by
  have valid : Tree.root < Tree.empty.size := Nat.one_pos
  refine (indentedCode_run_new valid rfl rest).trans ?_
  rw [codable.behindCode_codeBlock, codable.codeOf_codeBlock]
  rfl

/-- A further piece goes on with the code that is there. -/
theorem Codable.run_next (codable : Codable lines) (parser : Reparse) (session : Session)
    (code : Text) (rest : List Text) :
    indentedCode.run parser (session.setTree (codeAlone code)) Tree.root (codeBlock lines) rest =
      .ok (.handled
        (session.setTree (codeAlone (code ++ '\n' :: '\n' :: Text.joinLines lines))) rest) := by
  have held : 2 < (codeAlone code).size := Nat.lt_succ_self 2
  have last : lastCode? (codeAlone code) Tree.root = .ok (some 2) := rfl
  refine (indentedCode_run_more held last rest).trans ?_
  rw [codable.behindCode_codeBlock, codable.codeOf_codeBlock]
  rfl

theorem run_codeBlocks {budget : Nat} (session : Session) (code : Text)
    (codable : ∀ lines ∈ pieces, Codable lines) (enough : pieces.length < budget) :
    run members budget (session.setTree (codeAlone code)) Tree.root (pieces.map codeBlock) =
      .ok (session.setTree
        (codeAlone (Text.joinBlocks (code :: pieces.map Text.joinLines)))) := by
  induction pieces generalizing code budget with
  | nil =>
    obtain ⟨budget, rfl⟩ := Nat.exists_eq_add_of_le' enough
    simp only [List.map_nil, Text.joinBlocks_singleton]
    rfl
  | cons lines pieces ih =>
    cases budget with
    | zero => cases enough
    | succ budget =>
      obtain ⟨here, later⟩ := List.forall_mem_cons.1 codable
      calc run members (budget + 1) (session.setTree (codeAlone code)) Tree.root
            (codeBlock lines :: pieces.map codeBlock)
        _ = run members budget
              (session.setTree (codeAlone (code ++ '\n' :: '\n' :: Text.joinLines lines)))
              Tree.root (pieces.map codeBlock) :=
            Dispatch.run_taken (here.rejected _ _) (here.accepted _ _) (here.run_next _ _ _ _)
        _ = _ := by
            rw [ih _ later (Nat.lt_of_succ_lt_succ enough), Text.joinBlocks_fused, List.map_cons]

/-- Pieces of code that are written by indentation become one code element that holds them as they are,
with an empty line between neighbours. -/
theorem parseText_coded (stash : Stash) (some_piece : pieces ≠ [])
    (codable : ∀ lines ∈ pieces, Codable lines) :
    ∃ after, reference.parseText (fresh stash) Tree.root (coded pieces) = .ok after ∧
      after.tree.forest = [.node "pre" none {}
        [.node "code" (some (Text.joinBlocks (pieces.map Text.joinLines))) {} []]] := by
  have valid : Tree.root < Tree.empty.size := Nat.one_pos
  let after : Session :=
    (fresh stash).setTree (codeAlone (Text.joinBlocks (pieces.map Text.joinLines)))
  refine ⟨after, ?_, branches_withCode Tree.ordered_empty valid _⟩
  have enough := Nat.lt_succ_self (weight (coded pieces).blocks)
  rw [parseText_eq_run Tree.ordered_empty valid enough, blocks_coded some_piece codable]
  have count : pieces.length ≤ weight (pieces.map codeBlock) := by
    simpa using Dispatch.length_le_weight (pieces.map codeBlock)
  obtain ⟨first, rest, rfl⟩ := List.exists_cons_of_ne_nil some_piece
  obtain ⟨here, later⟩ := List.forall_mem_cons.1 codable
  calc run members (weight ((first :: rest).map codeBlock) + 1) (fresh stash) Tree.root
        (codeBlock first :: rest.map codeBlock)
    _ = run members (weight ((first :: rest).map codeBlock))
          ((fresh stash).setTree (codeAlone (Text.joinLines first))) Tree.root
          (rest.map codeBlock) :=
        Dispatch.run_taken (here.rejected _ _) (here.accepted _ _)
          (here.run_first _ (fresh stash) _)
    _ = .ok after := run_codeBlocks (fresh stash) (Text.joinLines first) later count

/-- Code that looks like a heading, an item, a quote and a fence, with an empty and a blank line. -/
theorem parseText_coded_lookalike :
    ([["# a".toList, [], "- b".toList], [" ".toList, "> ```".toList]] ≠ [] ∧
      ∀ lines ∈ [["# a".toList, [], "- b".toList], [" ".toList, "> ```".toList]], Codable lines) ∧
    ∃ after, reference.parseText (fresh {}) Tree.root
        (coded [["# a".toList, [], "- b".toList], [" ".toList, "> ```".toList]]) = .ok after ∧
      after.tree.forest = [.node "pre" none {}
        [.node "code" (some "# a\n\n- b\n\n \n> ```".toList) {} []]] :=
  ⟨by decide, parseText_coded {} (by decide) (by decide)⟩

end Grammar

end Tracemark
