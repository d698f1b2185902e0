import Tracemark.Proofs.Tree.Links

/-! Closed trees.

A tree is closed when its links lead to elements of the tree. Elements need not be in any order, and a
branch may lead back to itself. Every operation under an element of a closed tree succeeds, and leaves
a closed tree in which no element is lost. The tree that holds its root alone is closed, so is every
tree that operations make of it.
-/

set_option autoImplicit false

namespace Tracemark.Tree

structure Closed (tree : Tree) : Prop where
  child : ∀ {id element child}, tree.get? id = some element → child ∈ element.children →
    child < tree.size
  parent : ∀ {id element parent}, tree.get? id = some element → element.parent = some parent →
    parent < tree.size

variable {tree after : Tree} {id parent child : NodeId} {element : Element}

theorem Linked.closed (linked : tree.Linked) : tree.Closed where
  child := by
    intro id element child found member
    obtain ⟨below, here, -⟩ := linked.parent_of_mem found member
    exact lt_size_of_get? here
  parent := by
    intro id element parent found named
    obtain ⟨above, there, -⟩ := linked.mem_of_parent found named
    exact lt_size_of_get? there

theorem Closed.lt_size (closed : tree.Closed) (member : child ∈ tree.childrenOf id) :
    child < tree.size := by
  obtain ⟨element, found, member⟩ := mem_childrenOf_iff.1 member
  exact closed.child found member

theorem closed_empty : Tree.empty.Closed := ordered_empty.closed

theorem Closed.modify (closed : tree.Closed) {change : Element → Element}
    (children : ∀ element, ∀ child ∈ (change element).children,
      child ∈ element.children ∨ child < tree.size)
    (parent : ∀ element above, (change element).parent = some above →
      element.parent = some above ∨ above < tree.size) : (tree.modify id change).Closed where
  child := by
    intro other after child found member
    rw [size_modify]
    rw [get?_modify] at found
    obtain ⟨before, held, rfl⟩ := Option.map_eq_some_iff.1 found
    split at member
    · exact (children before child member).elim (closed.child held) fun inside => inside
    · exact closed.child held member
  parent := by
    intro other after above found named
    rw [size_modify]
    rw [get?_modify] at found
    obtain ⟨before, held, rfl⟩ := Option.map_eq_some_iff.1 found
    split at named
    · exact (parent before above named).elim (closed.parent held) fun inside => inside
    · exact closed.parent held named

theorem Closed.modify_links (closed : tree.Closed) {change : Element → Element}
    (keeps : KeepsLinks change) : (tree.modify id change).Closed :=
  closed.modify (fun element _ member => .inl (keeps.children element ▸ member))
    fun element _ named => .inl (keeps.parent element ▸ named)

theorem Closed.attached (closed : tree.Closed) (valid : parent < tree.size)
    (leaf : element.children = []) : (tree.attached parent element).Closed where
  child := by
    intro id after child found member
    rw [size_attached]
    rcases of_get?_attached valid found with ⟨rfl, rfl⟩ | ⟨before, held, -, ⟨-, same⟩ | ⟨-, rfl⟩⟩
    · simp [leaf] at member
    · rcases List.mem_append.1 (same ▸ member) with old | new
      · exact Nat.lt_succ_of_lt (closed.child held old)
      · rw [List.mem_singleton.1 new]
        exact Nat.lt_succ_self _
    · exact Nat.lt_succ_of_lt (closed.child held member)
  parent := by
    intro id after above found named
    rw [size_attached]
    rcases of_get?_attached valid found with ⟨rfl, rfl⟩ | ⟨before, held, same, -⟩
    · cases named
      exact Nat.lt_succ_of_lt valid
    · exact Nat.lt_succ_of_lt (closed.parent held (same ▸ named))

theorem Closed.exists_detach (closed : tree.Closed) (valid : id < tree.size) :
    ∃ after, tree.detach id = .ok after ∧ after.Closed ∧ after.size = tree.size := by
  obtain ⟨element, found⟩ := exists_get? valid
  simp only [detach, element_eq_ok found, bind, Except.bind]
  cases named : element.parent with
  | none => exact ⟨tree, rfl, closed, rfl⟩
  | some parent =>
    let orphaned : Tree := tree.modify id fun element => { element with parent := none }
    have closed' : orphaned.Closed := closed.modify (fun _ _ => .inl) (by simp)
    have above : parent < orphaned.size := by
      rw [size_modify]
      exact closed.parent found named
    rw [update_eq_ok valid]
    refine ⟨_, update_eq_ok above, ?_, by simp⟩
    apply closed'.modify
    · exact fun element child member => .inl (List.mem_filter.1 member).1
    · exact fun _ _ => .inl

theorem Closed.exists_reattach (closed : tree.Closed) (valid : id < tree.size)
    (held : parent < tree.size) :
    ∃ after, tree.reattach parent id = .ok after ∧ after.Closed ∧ after.size = tree.size := by
  obtain ⟨detached, taken, closed', size⟩ := closed.exists_detach valid
  rw [← size] at valid held
  let adopted : Tree := detached.modify id fun element => { element with parent := some parent }
  have closed'' : adopted.Closed := by
    apply closed'.modify
    · exact fun _ _ => .inl
    · intro element above named
      cases named
      exact .inr held
  have held' : parent < adopted.size := by
    rw [size_modify]
    exact held
  simp only [reattach, taken, bind, Except.bind, update_eq_ok valid]
  refine ⟨_, update_eq_ok held', ?_, by simp [size]⟩
  apply closed''.modify
  · intro element child member
    rcases List.mem_append.1 member with old | new
    · exact .inl old
    · rw [List.mem_singleton.1 new, size_modify]
      exact .inr valid
  · exact fun _ _ => .inl

end Tracemark.Tree
