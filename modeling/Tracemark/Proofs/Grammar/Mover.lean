import Tracemark.Proofs.Dispatch.Ending
import Tracemark.Proofs.Grammar.Editing

/-! Handlers that move an element.

A mover takes a block by moving an element that is there to the end of the children of its parent, and
appends text of the block to it. So a block can go into an element that other elements came after. It
makes no element, and it has nothing parsed.
-/

set_option autoImplicit false

namespace Tracemark

/-- What tells one mover from another: its name, the blocks it takes, the parent and the child that it
moves, and the text that it appends. -/
structure Mover where
  name : String
  takes : Session → NodeId → Text → Bool
  chosen? : Session → NodeId → Text → Option (NodeId × NodeId)
  addition : Text → Text
  child_mem : ∀ {session parent block place child},
    chosen? session parent block = some (place, child) → child ∈ session.tree.childrenOf place

namespace Mover

def handler (mover : Mover) : Handler where
  name := mover.name
  accepts := mover.takes
  run _ session parent block rest := do
    let some (place, child) := mover.chosen? session parent block | return .declined session
    let tree ← session.tree.reattach place child
    let tree ← tree.update child fun element =>
      { element with text := some (element.text.getD [] ++ mover.addition block) }
    return .handled (session.setTree tree) rest

def actor (mover : Mover) : Actor := .ofLeaf mover.handler fun _ _ => rfl

variable {mover : Mover} {session : Session} {parent : NodeId} {block : Text} {rest : List Text}
  {outcome : Outcome} {parser : Reparse}

theorem edits_of_run (ran : mover.handler.run parser session parent block rest = .ok outcome) :
    Session.Edits True session outcome.session := by
  unfold handler at ran
  simp only at ran
  split at ran
  · next place child chosen =>
    obtain ⟨moved, reattached, ran⟩ := exists_of_bind ran
    obtain ⟨tree, changed, ran⟩ := exists_of_bind ran
    cases ran
    rw [Tree.eq_of_update changed]
    refine .setTree (.trans ?_ (Grammar.edited_text moved child _))
    exact .single (.moved trivial (mover.child_mem chosen) reattached)
  · cases ran
    exact .refl _

theorem actor_edits (mover : Mover) : mover.actor.Edits True :=
  fun _ _ _ _ _ _ ran => edits_of_run ran

theorem endsBelow (mover : Mover) : mover.handler.EndsBelow := by
  intro holds block first second _ session parent rest sound valid _
  unfold handler
  simp only
  cases chosen : mover.chosen? session parent block with
  | none => exact ⟨_, rfl, rfl, sound.leads⟩
  | some found =>
    obtain ⟨place, child⟩ := found
    have member := mover.child_mem chosen
    obtain ⟨above, there, -⟩ := Tree.mem_childrenOf_iff.1 member
    obtain ⟨moved, reattached, closed, size⟩ :=
      sound.closed.exists_reattach (sound.closed.lt_size member) (Tree.lt_size_of_get? there)
    have held : child < moved.size := size ▸ sound.closed.lt_size member
    simp only [reattached, bind, Except.bind, Tree.update_eq_ok held]
    refine ⟨_, rfl, rfl, sound.setTree (closed.modify_links ⟨fun _ => rfl, fun _ => rfl⟩) ?_, .all⟩
    exact Nat.le_of_eq (size.symm.trans Tree.size_modify.symm)

end Mover

end Tracemark
