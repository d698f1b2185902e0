import Mathlib.Logic.Function.Iterate
import Tracemark.Proofs.Grammar.Marked

/-! Quoted text.

A text is quoted by a mark and a space in front of each of its lines. The quotation is one block, no
handler before the quotes takes it, and the marks are taken off again as they were put on. So it
becomes a quote that holds what the text becomes alone, and a text that is quoted many times becomes
as many quotes around that.
-/

set_option autoImplicit false

namespace Tracemark.Grammar

open Tracemark.Dispatch (run weight)
open Tracemark.LineShape (heading? isRule item? quoted?)

def quotedLine (line : Text) : Text := '>' :: ' ' :: line

def quote (text : Text) : Text := Text.joinLines (text.lines.map quotedLine)

def quotation (forest : List Branch) : List Branch := [.node "blockquote" none {} forest]

theorem quoted?_quotedLine (line : Text) : quoted? (quotedLine line) = some line := rfl

theorem heading?_quotedLine (line : Text) : heading? (quotedLine line) = none := rfl

theorem isRule_quotedLine (line : Text) : isRule (quotedLine line) = false := rfl

theorem item?_quotedLine (line : Text) : item? (quotedLine line) = none := rfl

theorem lines_quote (text : Text) : (quote text).lines = text.lines.map quotedLine := by
  apply Text.lines_joinLines
  · simpa using Text.lines_ne_nil text
  · rw [List.forall_mem_map]
    intro line member
    simpa [quotedLine] using Text.not_mem_of_mem_lines member

theorem firstLine_quote (text : Text) : (quote text).firstLine = quotedLine text.firstLine := by
  have first := Text.firstLine_eq_head_lines (quote text)
  rw [lines_quote, List.head?_map, Text.firstLine_eq_head_lines, Option.map_some] at first
  exact (Option.some.inj first).symm

theorem blocks_quote (text : Text) : (quote text).blocks = [quote text] := by
  apply Text.blocks_joinLines_of_ne_nil
  · simpa using Text.lines_ne_nil text
  · rw [← lines_quote]
    exact fun line member => Text.not_mem_of_mem_lines member
  · simp [quotedLine]

theorem unquote_quote (text : Text) : unquote (quote text) = text := by
  rw [unquote, lines_quote, List.map_map]
  simpa [Function.comp_def, quoted?_quotedLine] using Text.joinLines_lines text

theorem exists_quote_eq_cons (text : Text) : ∃ rest, quote text = '>' :: rest := by
  obtain ⟨line, others, same⟩ := Text.exists_lines_eq_cons text
  rw [quote, same, List.map_cons]
  obtain ⟨more, whole⟩ := Text.exists_joinLines_eq_append (quotedLine line) (others.map quotedLine)
  exact ⟨_, whole⟩

theorem rejected_quote (session : Session) (parent : NodeId) (text : Text) :
    ∀ handler ∈ [empty, indentedCode, heading, rule, list],
      handler.accepts session parent (quote text) = false := by
  have passed : ∀ handler ∈ [empty, indentedCode, heading, rule],
      handler.accepts session parent (quote text) = false := by
    obtain ⟨rest, same⟩ := exists_quote_eq_cons text
    have lines := lines_quote text
    rw [same] at lines ⊢
    apply rejected_of_marked rfl
    · simp [lines, heading?_quotedLine]
    · simp [lines, isRule_quotedLine]
  intro handler member
  rcases List.mem_append.1 (show handler ∈ [empty, indentedCode, heading, rule] ++ [list] from member)
    with front | last
  · exact passed handler front
  · rw [List.mem_singleton.1 last]
    simp [list, firstLine_quote, item?_quotedLine]

/-- A quotation becomes a quote that holds what the text becomes alone. -/
theorem exists_parsed_quote (stash : Stash) (text : Text) :
    ∃ inner outer, reference.parseText (fresh stash) Tree.root text = .ok inner ∧
      reference.parseText (fresh stash) Tree.root (quote text) = .ok outer ∧
      outer.tree.forest = quotation inner.tree.forest := by
  let made : Tree := Tree.empty.attached Tree.root { tag := "blockquote" }
  have valid : Tree.root < Tree.empty.size := Nat.one_pos
  have ordered : made.Ordered := Tree.ordered_empty.attached valid rfl
  have accepted : (quoted? (quote text).firstLine).isSome = true := by
    rw [firstLine_quote, quoted?_quotedLine]
    rfl
  have light : weight text.blocks < (quote text).length + 1 := by
    have lighter := weight_unquote_lt accepted
    rwa [unquote_quote] at lighter
  have youngest : made.size = 1 + 1 := rfl
  have children : made.childrenOf Tree.root = [] ++ [1] := rfl
  obtain ⟨inner, outer, alone, inside, grown, branches⟩ :=
    Dispatch.run_relocated ((fresh stash).setTree made) members_lawful ordered youngest nofun rfl
      light light
  have enough : weight (quote text).blocks < (quote text).length + 1 + 1 := by
    rw [blocks_quote]
    exact Nat.lt_succ_self _
  have taken : blockquote.run (run members ((quote text).length + 1)) (fresh stash) Tree.root
      (quote text) [] = .ok (.handled ((fresh stash).setTree outer) []) := by
    change (run members _ ((fresh stash).setTree made) 1 (unquote (quote text)).blocks).bind _ = _
    rw [unquote_quote, inside]
    rfl
  refine ⟨(fresh stash).setTree inner, (fresh stash).setTree outer, ?_, ?_, ?_⟩
  · rw [parseText_eq_run Tree.ordered_empty valid light]
    exact alone
  · rw [parseText_eq_run Tree.ordered_empty valid enough, blocks_quote]
    exact Dispatch.run_singleton (rejected_quote _ _ _) accepted taken
  · exact (grown.branches_inside ordered children rfl).trans (congrArg quotation branches)

/-- A text that is quoted many times becomes as many quotes, each the only element in the one around it,
and what the text becomes alone stands in the innermost. -/
theorem parseText_quoted (stash : Stash) (depth : Nat) (text : Text) :
    ∃ inner outer, reference.parseText (fresh stash) Tree.root text = .ok inner ∧
      reference.parseText (fresh stash) Tree.root (quote^[depth] text) = .ok outer ∧
      outer.tree.forest = quotation^[depth] inner.tree.forest := by
  induction depth with
  | zero =>
    obtain ⟨inner, -, alone, -⟩ := exists_parsed_quote stash text
    exact ⟨inner, inner, alone, alone, rfl⟩
  | succ depth ih =>
    obtain ⟨inner, middle, alone, before, same⟩ := ih
    obtain ⟨middle', outer, before', after, same'⟩ := exists_parsed_quote stash (quote^[depth] text)
    cases before.symm.trans before'
    refine ⟨inner, outer, alone, ?_, ?_⟩
    · rwa [Function.iterate_succ_apply']
    · rw [Function.iterate_succ_apply', same', same]

end Tracemark.Grammar
