import Mathlib.Logic.Relation
import Tracemark.Proofs.Tree.Closed

/-! Edits of a tree.

Handlers change a tree by a few kinds of edits: they attach elements without attributes, take elements
out of their parents, change elements in ways that keep links and attributes, and write the class of an
element. Some may also move an element to the end of its own parent. Whatever a handler does is a chain
of such edits, so what each edit keeps is kept by all that is parsed.
-/

set_option autoImplicit false

namespace Tracemark.Tree

variable {tree before middle after : Tree} {id other parent child : NodeId} {element : Element}
  {name : String} {change : Element → Element} {moves : Prop}

def value? (tree : Tree) (id : NodeId) (name : String) : Option Text :=
  (tree.get? id).bind (·.attributes.get? name)

/-- One edit. Elements are moved only where `moves` holds. -/
inductive Edit (moves : Prop) (before : Tree) : Tree → Prop
  | attached {parent : NodeId} {element : Element} : parent < before.size → element.children = [] →
    element.attributes = {} → Edit moves before (before.attached parent element)
  | detached {id parent : NodeId} {element : Element} : before.get? id = some element →
    element.parent = some parent → Edit moves before (before.detached id parent)
  | changed {id : NodeId} {change : Element → Element} : KeepsLinks change →
    (∀ element, (change element).attributes = element.attributes) →
    Edit moves before (before.modify id change)
  | classed {id : NodeId} {value : Text} : Edit moves before (before.modify id fun element =>
      { element with attributes := element.attributes.insert "class" value })
  | moved {id parent : NodeId} {after : Tree} : moves → id ∈ before.childrenOf parent →
    before.reattach parent id = .ok after → Edit moves before after

def Edited (moves : Prop) : Tree → Tree → Prop := Relation.ReflTransGen (Edit moves)

/-! Operations that succeed. -/

theorem eq_of_update (made : tree.update id change = .ok after) : after = tree.modify id change := by
  unfold update at made
  split at made
  · cases made
    rfl
  · cases made

theorem of_detach (made : tree.detach id = .ok after) :
    after = tree ∨ ∃ element parent, tree.get? id = some element ∧ element.parent = some parent ∧
      after = tree.detached id parent := by
  unfold detach Tree.element at made
  cases found : tree.get? id with
  | none =>
    rw [found] at made
    cases made
  | some element =>
    simp only [found, bind, Except.bind] at made
    cases named : element.parent with
    | none =>
      rw [named] at made
      cases made
      exact .inl rfl
    | some parent =>
      simp only [named, update_eq_ok (lt_size_of_get? found)] at made
      exact .inr ⟨element, parent, rfl, named, eq_of_update made⟩

theorem of_reattach (made : tree.reattach parent id = .ok after) :
    ∃ taken, tree.detach id = .ok taken ∧ after =
      (taken.modify id fun element => { element with parent := some parent }).modify parent
        fun above => { above with children := above.children ++ [id] } := by
  unfold reattach at made
  cases taken : tree.detach id with
  | error fault =>
    rw [taken] at made
    cases made
  | ok detached =>
    simp only [taken, bind, Except.bind] at made
    split at made
    · cases made
    · next adopted same =>
      rw [eq_of_update made, eq_of_update same]
      exact ⟨detached, rfl, rfl⟩

/-! What single changes keep. -/

theorem value?_modify (kept : ∀ element, (change element).attributes.get? name =
    element.attributes.get? name) : (tree.modify id change).value? other name = tree.value? other name := by
  unfold value?
  rw [get?_modify]
  cases tree.get? other with
  | none => rfl
  | some element => by_cases same : id = other <;> simp [same, kept]

theorem value?_attached (valid : parent < tree.size) (bare : element.attributes = {}) :
    (tree.attached parent element).value? id name = tree.value? id name := by
  unfold value?
  rw [get?_attached valid]
  by_cases new : id = tree.size
  · have nothing : tree.get? id = none := List.getElem?_eq_none (Nat.le_of_eq new.symm)
    rw [if_pos new, nothing, Option.bind_some, bare]
    rfl
  · rw [if_neg new]
    cases tree.get? id with
    | none => rfl
    | some above => by_cases same : parent = id <;> simp [same]

theorem mem_childrenOf_of_modify (kept : ∀ element, child ∈ (change element).children →
    child ∈ element.children) (member : child ∈ (tree.modify id change).childrenOf other) :
    child ∈ tree.childrenOf other := by
  obtain ⟨after, found, member⟩ := mem_childrenOf_iff.1 member
  rw [get?_modify] at found
  obtain ⟨before, held, rfl⟩ := Option.map_eq_some_iff.1 found
  refine mem_childrenOf_iff.2 ⟨before, held, ?_⟩
  split at member
  · exact kept before member
  · exact member

theorem value?_detached : (tree.detached id parent).value? other name = tree.value? other name := by
  refine (value?_modify ?_).trans (value?_modify ?_) <;> exact fun _ => rfl

theorem mem_childrenOf_of_detached (member : child ∈ (tree.detached id parent).childrenOf other) :
    child ∈ tree.childrenOf other := by
  refine mem_childrenOf_of_modify ?_ (mem_childrenOf_of_modify ?_ member)
  · exact fun _ inside => inside
  · exact fun _ inside => (List.mem_filter.1 inside).1

-- Moving an element is taking it out and adding it again.
theorem size_of_reattach (made : tree.reattach parent id = .ok after) : after.size = tree.size := by
  obtain ⟨taken, detached, rfl⟩ := of_reattach made
  rw [size_modify, size_modify]
  rcases of_detach detached with rfl | ⟨_, _, _, _, rfl⟩
  · rfl
  · exact size_detached

theorem value?_of_reattach (made : tree.reattach parent id = .ok after) :
    after.value? other name = tree.value? other name := by
  obtain ⟨taken, detached, rfl⟩ := of_reattach made
  have same : taken.value? other name = tree.value? other name := by
    rcases of_detach detached with rfl | ⟨_, _, _, _, rfl⟩
    · rfl
    · exact value?_detached
  refine ((value?_modify ?_).trans (value?_modify ?_)).trans same <;> exact fun _ => rfl

theorem mem_childrenOf_of_reattach (made : tree.reattach parent id = .ok after)
    (member : child ∈ after.childrenOf other) :
    child ∈ tree.childrenOf other ∨ other = parent ∧ child = id := by
  obtain ⟨taken, detached, rfl⟩ := of_reattach made
  have before (member : child ∈ taken.childrenOf other) : child ∈ tree.childrenOf other := by
    rcases of_detach detached with rfl | ⟨_, _, _, _, rfl⟩
    · exact member
    · exact mem_childrenOf_of_detached member
  obtain ⟨element, found, member⟩ := mem_childrenOf_iff.1 member
  rw [get?_modify] at found
  obtain ⟨adopted, held, rfl⟩ := Option.map_eq_some_iff.1 found
  have old (member : child ∈ adopted.children) : child ∈ tree.childrenOf other := by
    apply before
    refine mem_childrenOf_of_modify ?_ (mem_childrenOf_iff.2 ⟨adopted, held, member⟩)
    exact fun _ inside => inside
  split at member
  · next same =>
    rcases List.mem_append.1 member with there | new
    · exact .inl (old there)
    · exact .inr ⟨same.symm, List.mem_singleton.1 new⟩
  · exact .inl (old member)

theorem Closed.detached (closed : tree.Closed) : (tree.detached id parent).Closed := by
  have orphaned : (tree.modify id fun element => { element with parent := none }).Closed :=
    closed.modify (fun _ _ => .inl) (by simp)
  apply orphaned.modify
  · exact fun element child member => .inl (List.mem_filter.1 member).1
  · exact fun _ _ => .inl

/-! What edits keep. -/

namespace Edit

theorem size_le (edit : Edit moves before after) : before.size ≤ after.size := by
  cases edit with
  | attached valid _ _ => exact Nat.le_of_lt (size_lt_attached _ _ _)
  | detached _ _ => exact Nat.le_of_eq size_detached.symm
  | changed _ _ => exact Nat.le_of_eq size_modify.symm
  | classed => exact Nat.le_of_eq size_modify.symm
  | moved _ _ made => exact Nat.le_of_eq (size_of_reattach made).symm

theorem closed (edit : Edit moves before after) (closed : before.Closed) : after.Closed := by
  cases edit with
  | attached valid leaf _ => exact closed.attached valid leaf
  | detached _ _ => exact closed.detached
  | changed keeps _ => exact closed.modify_links keeps
  | classed => exact closed.modify_links ⟨fun _ => rfl, fun _ => rfl⟩
  | moved _ member made =>
    obtain ⟨above, found, _⟩ := mem_childrenOf_iff.1 member
    obtain ⟨moved, same, closed', -⟩ :=
      closed.exists_reattach (closed.lt_size member) (lt_size_of_get? found)
    cases made.symm.trans same
    exact closed'

theorem ordered (edit : Edit False before after) (ordered : before.Ordered) : after.Ordered := by
  cases edit with
  | attached valid leaf _ => exact ordered.attached valid leaf
  | detached found named =>
    obtain ⟨above, there, member⟩ := ordered.mem_of_parent found named
    exact ordered.detached (mem_childrenOf_iff.2 ⟨above, there, member⟩)
      (Nat.ne_of_gt (ordered.parent_lt found named))
  | changed keeps _ => exact ordered.modify keeps
  | classed => exact ordered.modify ⟨fun _ => rfl, fun _ => rfl⟩
  | moved allowed _ _ => exact allowed.elim

theorem value? (edit : Edit moves before after) (other : name ≠ "class") (id : NodeId) :
    after.value? id name = before.value? id name := by
  cases edit with
  | attached valid _ bare => exact value?_attached valid bare
  | detached _ _ => exact value?_detached
  | changed _ kept => exact value?_modify fun element => by rw [kept]
  | classed => exact value?_modify fun element => OrderedMap.get?_insert_of_ne _ _ other
  | moved _ _ made => exact value?_of_reattach made

theorem children (edit : Edit moves before after) (member : child ∈ after.childrenOf parent) :
    child ∈ before.childrenOf parent ∨ before.size ≤ child := by
  cases edit with
  | @attached above element valid leaf _ =>
    by_cases same : parent = above
    · subst same
      rw [childrenOf_attached valid, List.mem_append, List.mem_singleton] at member
      exact member.imp_right fun new => Nat.le_of_eq new.symm
    · rw [childrenOf_attached_of_ne valid leaf same] at member
      exact .inl member
  | detached _ _ => exact .inl (mem_childrenOf_of_detached member)
  | changed keeps _ =>
    refine .inl (mem_childrenOf_of_modify ?_ member)
    exact fun element inside => keeps.children element ▸ inside
  | classed =>
    refine .inl (mem_childrenOf_of_modify ?_ member)
    exact fun _ inside => inside
  | moved _ listed made =>
    rcases mem_childrenOf_of_reattach made member with old | ⟨rfl, rfl⟩
    · exact .inl old
    · exact .inl listed

end Edit

namespace Edited

theorem size_le (edited : Edited moves before after) : before.size ≤ after.size := by
  induction edited with
  | refl => exact Nat.le_refl _
  | tail _ edit ih => exact Nat.le_trans ih edit.size_le

theorem closed (edited : Edited moves before after) (closed : before.Closed) : after.Closed := by
  induction edited with
  | refl => exact closed
  | tail _ edit ih => exact edit.closed ih

theorem ordered (edited : Edited False before after) (ordered : before.Ordered) : after.Ordered := by
  induction edited with
  | refl => exact ordered
  | tail _ edit ih => exact edit.ordered ih

theorem value? (edited : Edited moves before after) (other : name ≠ "class") (id : NodeId) :
    after.value? id name = before.value? id name := by
  induction edited with
  | refl => rfl
  | tail _ edit ih => exact (edit.value? other id).trans ih

theorem children (edited : Edited moves before after) (member : child ∈ after.childrenOf parent) :
    child ∈ before.childrenOf parent ∨ before.size ≤ child := by
  induction edited with
  | refl => exact .inl member
  | tail earlier edit ih =>
    rcases edit.children member with old | new
    · exact ih old
    · exact .inr (Nat.le_trans (Edited.size_le earlier) new)

end Edited

end Tracemark.Tree
