import Tracemark.Proofs.Dispatch.Pairing
import Tracemark.Proofs.Tree.Branches

/-! Parsing under the youngest element of a tree.

While that element has no children, it stands for the root of an empty tree: all that is parsed under
it is new, and gets the numbers it would get there, moved by a constant. So a queue becomes the same
branches in both places, whatever else the tree holds.
-/

set_option autoImplicit false

namespace Tracemark

open Tracemark.Tree (Grows)
open Tracemark.Dispatch (run weight)

namespace Tree.Matches

variable {shift : Nat} {left right tree : Tree} {id parent : NodeId}

theorem branch?_of_outside (matched : left.Matches shift [] right) (depth : Nat)
    (outside : left.size ≤ id) : right.branch? depth (id + shift) = left.branch? depth id := by
  have outside' : right.size ≤ id + shift := by
    rw [matched.size]
    exact Nat.add_le_add_right outside shift
  rw [Tree.branch?_of_outside depth outside, Tree.branch?_of_outside depth outside']

theorem branch?_eq (matched : left.Matches shift [] right) (ordered : left.Ordered) (depth : Nat)
    (notRoot : id ≠ root) : right.branch? depth (id + shift) = left.branch? depth id := by
  induction depth generalizing id with
  | zero =>
    cases found : left.get? id with
    | none => exact matched.branch?_of_outside 0 (List.getElem?_eq_none_iff.1 found)
    | some before =>
      obtain ⟨after, there, same, -⟩ := matched.of_ne_root notRoot found
      rw [branch?_zero, branch?_zero, found, there, Option.map_some, Option.map_some, same.tag,
        same.text, same.attributes, OrderedMap.without_nil]
  | succ depth ih =>
    cases found : left.get? id with
    | none => exact matched.branch?_of_outside _ (List.getElem?_eq_none_iff.1 found)
    | some before =>
      obtain ⟨after, there, same, children⟩ := matched.of_ne_root notRoot found
      have below : after.children.filterMap (right.branch? depth) =
          before.children.filterMap (left.branch? depth) := by
        rw [children, List.filterMap_map]
        apply List.filterMap_congr
        intro child member
        rw [← childrenOf_eq found] at member
        exact ih fun isRoot => ordered.root_not_mem (isRoot ▸ member)
      rw [branch?_succ, branch?_succ, found, there, Option.map_some, Option.map_some, same.tag,
        same.text, same.attributes, OrderedMap.without_nil, below]

theorem branches_eq (matched : left.Matches shift [] right) (ordered : left.Ordered)
    (ordered' : right.Ordered) (id : NodeId) : right.branches (id + shift) = left.branches id := by
  rw [ordered'.branches_eq, ordered.branches_eq, shown, shown, matched.children, List.filterMap_map]
  apply List.filterMap_congr
  intro child member
  have notRoot : child ≠ root := fun isRoot => ordered.root_not_mem (isRoot ▸ member)
  rw [Function.comp_apply, matched.branch?_eq ordered _ notRoot]
  exact ordered.branch?_depth
    (Nat.le_trans (matched.size ▸ Nat.le_add_right _ _) (Nat.le_add_left _ _)) (Nat.le_add_left _ _)

theorem of_youngest (youngest : tree.size = parent + 1) (notRoot : parent ≠ root)
    (bare : tree.childrenOf parent = []) : Tree.empty.Matches parent [] tree where
  size := youngest.trans (Nat.add_comm _ _)
  children id := by
    cases id with
    | zero =>
      rw [Nat.zero_add, bare]
      rfl
    | succ id =>
      have outside : tree.size ≤ id + 1 + parent := by omega
      rw [childrenOf, get?_eq_none outside]
      rfl
  element := by
    intro id before free found
    -- There is the root alone, and it is not compared.
    have inside : id < Tree.empty.size := lt_size_of_get? found
    exact absurd free (not_or.2 ⟨not_not.2 (Nat.lt_one_iff.1 inside), notRoot⟩)

end Tree.Matches

namespace Dispatch

variable {handlers : List Handler} {parent : NodeId} {queue : List Text}

/-- What a queue becomes under a youngest element without children, it becomes under the root of an
empty tree. -/
theorem run_relocated (session : Session) (lawful : ∀ handler ∈ handlers, handler.Lawful)
    (ordered : session.tree.Ordered) (youngest : session.tree.size = parent + 1)
    (notRoot : parent ≠ Tree.root) (bare : session.tree.childrenOf parent = [])
    {budget budget' : Nat} (enough : weight queue < budget) (enough' : weight queue < budget') :
    ∃ alone after,
      run handlers budget (session.setTree .empty) Tree.root queue = .ok (session.setTree alone) ∧
      run handlers budget' session parent queue = .ok (session.setTree after) ∧
      Grows parent session.tree after ∧ after.branches parent = alone.forest := by
  let pairing : Pairing :=
    { left := session.setTree .empty, right := session, shift := parent, hidden := [],
      stash := rfl, shown := List.not_mem_nil }
  have start : pairing.Paired .empty session.tree :=
    ⟨Tree.ordered_empty, .of_youngest youngest notRoot bare⟩
  have follows : pairing.Follows Tree.root (weight queue + 1) (run handlers budget)
      (run handlers budget') :=
    run_follows pairing Tree.root [] lawful (by simp) enough enough'
  obtain ⟨alone, after, paired, -, ran, ran'⟩ :=
    follows start (Nat.le_refl _) Nat.one_pos (Nat.lt_succ_self _)
  have place : Tree.root + pairing.shift = parent := Nat.zero_add parent
  rw [place] at ran'
  have held : parent < session.tree.size := youngest ▸ Nat.lt_succ_self parent
  obtain ⟨grown, ran'', isGrown⟩ := run_grows session lawful ordered held enough'
  have same : after = grown := congrArg Session.tree (Except.ok.inj (ran'.symm.trans ran''))
  subst same
  have branches := paired.matched.branches_eq paired.ordered isGrown.ordered Tree.root
  rw [place] at branches
  exact ⟨alone, after, ran, ran', isGrown, branches⟩

end Dispatch

end Tracemark
