import Tracemark.Proofs.Dispatch.Editing
import Tracemark.Proofs.Grammar.Actors

/-! Handlers of the grammar edit.

Each of them does no more to a tree than to attach elements, to take a paragraph out of a tight item, to
change texts, and to write the class of code. It moves nothing.
-/

set_option autoImplicit false

namespace Tracemark.Grammar

open Tracemark.LineShape (Cut)
open Tracemark.Tree (Edited)

variable {moves : Prop} {tree tight : Tree} {parent item : NodeId} {tag : String} {element : Element}
  {session last : Session} {block : Text} {rest : List Text} {outcome : Outcome} {parser : Reparse}

/-! Trees. -/

theorem edited_attached (valid : parent < tree.size) (leaf : element.children = [])
    (bare : element.attributes = {}) : Edited moves tree (tree.attached parent element) :=
  .single (.attached valid leaf bare)

theorem edited_text (tree : Tree) (id : NodeId) (text : Element → Option Text) :
    Edited moves tree (tree.modify id fun element => { element with text := text element }) :=
  .single (.changed ⟨fun _ => rfl, fun _ => rfl⟩ fun _ => rfl)

theorem edited_withCode (valid : parent < tree.size) (code : Text) :
    Edited moves tree (withCode tree parent code) :=
  (edited_attached valid rfl rfl).trans (edited_attached (Tree.size_lt_attached _ _ _) rfl rfl)

theorem edited_openContainer (valid : parent < tree.size) {made : NodeId × Tree}
    (opened : openContainer tree parent tag = .ok made) :
    Edited moves tree made.2 ∧ made.1 < made.2.size := by
  have fresh (same : tree.append parent tag = .ok made) :
      Edited moves tree made.2 ∧ made.1 < made.2.size := by
    rw [Tree.append, Tree.attach_eq_ok valid] at same
    cases same
    exact ⟨edited_attached valid rfl rfl, Tree.size_lt_attached _ _ _⟩
  obtain ⟨last, -, opened⟩ := exists_of_bind opened
  cases last with
  | none => exact fresh opened
  | some sibling =>
    obtain ⟨element, found, opened⟩ := exists_of_bind opened
    split at opened
    · cases opened
      refine ⟨.refl, ?_⟩
      unfold Tree.element at found
      split at found
      · next element held => exact Tree.lt_size_of_get? held
      · cases found
    · exact fresh opened

theorem edited_tighten (tightened : tighten tree item = .ok tight) : Edited moves tree tight := by
  obtain ⟨children, -, tightened⟩ := exists_of_bind tightened
  split at tightened
  · next only =>
    obtain ⟨element, -, tightened⟩ := exists_of_bind tightened
    split at tightened
    · cases tightened
      exact .refl
    · obtain ⟨cleared, emptied, tightened⟩ := exists_of_bind tightened
      obtain ⟨orphaned, detached, tightened⟩ := exists_of_bind tightened
      rw [Tree.eq_of_update emptied] at detached
      rw [Tree.eq_of_update tightened]
      refine .trans ?_ (edited_text orphaned item fun _ => element.text)
      refine .trans (edited_text tree only fun _ => none) ?_
      rcases Tree.of_detach detached with rfl | ⟨_, _, found, named, rfl⟩
      · exact .refl
      · exact .single (.detached found named)
  · cases tightened
    exact .refl

/-! Leaves. -/

theorem edits_indentedCode (valid : parent < session.tree.size)
    (ran : indentedCode.run parser session parent block rest = .ok outcome) :
    Session.Edits moves session outcome.session := by
  obtain ⟨found, -, ran⟩ := exists_of_bind ran
  cases found with
  | none =>
    simp only [append_code_eq_ok valid] at ran
    cases ran
    exact .setTree (edited_withCode valid _)
  | some existing =>
    obtain ⟨tree, changed, ran⟩ := exists_of_bind ran
    cases ran
    rw [Tree.eq_of_update changed]
    exact .setTree (edited_text _ _ _)

theorem edits_stash (valid : parent < session.tree.size)
    (ran : stash.run parser session parent block rest = .ok outcome) :
    Session.Edits moves session outcome.session := by
  unfold stash at ran
  simp only at ran
  split at ran
  · cases ran
    exact .refl _
  · next fragment _ =>
    simp only [append_code_eq_ok valid] at ran
    have written : Edited moves session.tree (withCode session.tree parent fragment.code) :=
      edited_withCode valid _
    split at ran
    · cases ran
      exact .setTree written
    · obtain ⟨tree, classed, ran⟩ := exists_of_bind ran
      cases ran
      rw [Tree.eq_of_update classed]
      exact .setTree (written.trans (.single .classed))

theorem edits_paragraph (valid : parent < session.tree.size)
    (ran : paragraph.run parser session parent block rest = .ok outcome) :
    Session.Edits moves session outcome.session := by
  unfold paragraph at ran
  simp only at ran
  split at ran
  · cases ran
    exact .refl _
  · obtain ⟨made, attached, ran⟩ := exists_of_bind ran
    cases (Tree.attach_eq_ok valid).symm.trans attached
    cases ran
    exact .setTree (edited_attached valid rfl rfl)

/-! Scripts. -/

theorem edits_cutScript {α : Type} (cut : Cut α) (leaf : element.children = [])
    (bare : element.attributes = {}) (valid : parent < session.tree.size) :
    (cutScript cut element session parent rest).Edits moves
      (fun last outcome => Session.Edits moves last outcome.session) session := by
  -- The element is attached behind what stood before the cut.
  let attaching (before : Session) : Script Outcome := do
    let made ← before.tree.attach parent element
    return .handled (before.setTree made.2) (putBack cut.behind rest)
  have attach {before : Session} (valid : parent < before.tree.size) : (attaching before).Edits moves
      (fun last outcome => Session.Edits moves last outcome.session) before := by
    refine Script.edits_lift_bind fun made attached => ?_
    cases (Tree.attach_eq_ok valid).symm.trans attached
    exact Script.edits_pure (.setTree (edited_attached valid leaf bare))
  unfold cutScript
  split
  · exact attach valid
  · refine Script.Edits.bind (Script.edits_reparse (.refl _) valid) ?_
    rintro last after ⟨rfl, size_le⟩
    exact attach (Nat.lt_of_lt_of_le valid size_le)

theorem edits_itemsScript {list : NodeId} (bodies : List (List Text))
    (edits : Session.Edits moves last session) (valid : list < session.tree.size) :
    (itemsScript list bodies session).Edits moves (Session.Edits moves) last := by
  induction bodies generalizing session last with
  | nil => exact Script.edits_pure edits
  | cons body rest ih =>
    refine Script.edits_lift_bind fun made attached => ?_
    cases (Tree.attach_eq_ok valid).symm.trans attached
    have held := Tree.size_lt_attached session.tree list { tag := "li" }
    have started : Session.Edits moves last
        (session.setTree (session.tree.attached list { tag := "li" })) :=
      edits.trans (.setTree (edited_attached valid rfl rfl))
    refine Script.Edits.bind (Script.edits_reparse started held) ?_
    rintro inner after ⟨rfl, size_le⟩
    refine Script.edits_lift_bind fun tight tightened => ?_
    have edited : Edited moves after.tree tight := edited_tighten tightened
    refine ih (.setTree edited) ?_
    calc list < session.tree.size := valid
      _ ≤ (session.tree.attached list { tag := "li" }).size := Nat.le_of_lt held
      _ ≤ after.tree.size := size_le
      _ ≤ tight.size := edited.size_le

theorem actors_edit : ∀ actor ∈ actors, actor.Edits moves := by
  intro actor member
  simp only [actors, List.mem_cons, List.not_mem_nil, or_false] at member
  rcases member with rfl | rfl | rfl | rfl | rfl | rfl | rfl | rfl <;>
    intro session parent block rest valid
  · intro outcome ran
    cases ran
    exact .refl _
  · exact fun outcome => edits_indentedCode valid
  · unfold headingActor
    simp only
    split
    · exact Script.edits_pure (.refl _)
    · exact edits_cutScript _ rfl rfl valid
  · unfold ruleActor
    simp only
    split
    · exact Script.edits_pure (.refl _)
    · exact edits_cutScript _ rfl rfl valid
  · unfold listActor
    simp only
    split
    · exact Script.edits_pure (.refl _)
    · refine Script.edits_lift_bind fun made opened => ?_
      obtain ⟨edited, held⟩ := edited_openContainer valid opened
      refine Script.Edits.bind (edits_itemsScript _ (.setTree edited) held) ?_
      exact fun last after edits => Script.edits_pure edits
  · refine Script.edits_lift_bind fun made opened => ?_
    obtain ⟨edited, held⟩ := edited_openContainer valid opened
    refine Script.Edits.bind (Script.edits_reparse (.setTree edited) held) ?_
    rintro last after ⟨rfl, -⟩
    exact Script.edits_pure (.refl _)
  · exact fun outcome => edits_stash valid
  · exact fun outcome => edits_paragraph valid

end Tracemark.Grammar
