import Tracemark.Proofs.OrderedMap
import Tracemark.Proofs.Tree.Links

/-! Trees that match but for hidden attributes and for what stands in the place of the root.

The elements of the second tree are those of the first under numbers that are `shift` higher, without
the attributes whose names are hidden. With a shift the root of the first tree stands for some
element of the second, of which only the children are compared. Without a shift and with nothing
hidden two trees match when they are equal.
-/

set_option autoImplicit false

namespace Tracemark

theorem Element.ext {left right : Element} (tag : left.tag = right.tag)
    (text : left.text = right.text) (attributes : left.attributes = right.attributes)
    (children : left.children = right.children) (parent : left.parent = right.parent) :
    left = right := by
  cases left
  cases right
  simp_all

/-- The second element is the first with its parent renumbered and without hidden attributes. -/
structure Element.Matches (shift : Nat) (hidden : List String) (left right : Element) : Prop where
  tag : right.tag = left.tag
  text : right.text = left.text
  attributes : right.attributes = left.attributes.without hidden
  parent : right.parent = left.parent.map (· + shift)

namespace Tree

structure Matches (shift : Nat) (hidden : List String) (left right : Tree) : Prop where
  size : right.size = left.size + shift
  children : ∀ id, right.childrenOf (id + shift) = (left.childrenOf id).map (· + shift)
  element : ∀ {id before}, id ≠ root ∨ shift = 0 → left.get? id = some before →
    ∃ after, right.get? (id + shift) = some after ∧ before.Matches shift hidden after

def without (hidden : List String) (tree : Tree) : Tree :=
  ⟨tree.elements.map fun element =>
    { element with attributes := element.attributes.without hidden }⟩

namespace Matches

variable {shift : Nat} {hidden : List String} {left right : Tree} {id parent : NodeId}

theorem of_without (hidden : List String) (tree : Tree) : tree.Matches 0 hidden (tree.without hidden) where
  size := List.length_map _
  children id := by
    rw [childrenOf, childrenOf, without, get?, List.getElem?_map]
    change (Option.map _ (Option.map _ (tree.get? id))).getD [] = _
    cases tree.get? id with
    | none => rfl
    | some element => exact (List.map_id' _).symm
  element := by
    intro id before _ found
    refine ⟨{ before with attributes := before.attributes.without hidden }, ?_, rfl, rfl, rfl,
      by simp⟩
    rw [without, get?, List.getElem?_map]
    exact congrArg (Option.map _) found

theorem without_nil (tree : Tree) : tree.without [] = tree := by
  simp only [without, OrderedMap.without_nil]
  exact congrArg Tree.mk (List.map_id' _)

theorem refl (tree : Tree) : tree.Matches 0 [] tree := by
  have matched := of_without [] tree
  rwa [without_nil] at matched

theorem valid (matched : left.Matches shift hidden right) (valid : id < left.size) :
    id + shift < right.size := by
  rw [matched.size]
  exact Nat.add_lt_add_right valid shift

theorem getLast?_childrenOf (matched : left.Matches shift hidden right) (id : NodeId) :
    (right.childrenOf (id + shift)).getLast? = (left.childrenOf id).getLast?.map (· + shift) := by
  rw [matched.children, List.getLast?_map]

theorem of_ne_root (matched : left.Matches shift hidden right) (notRoot : id ≠ root)
    {before : Element} (found : left.get? id = some before) :
    ∃ after, right.get? (id + shift) = some after ∧ before.Matches shift hidden after ∧
      after.children = before.children.map (· + shift) := by
  obtain ⟨after, there, same⟩ := matched.element (.inl notRoot) found
  have children := matched.children id
  rw [childrenOf_eq found, childrenOf_eq there] at children
  exact ⟨after, there, same, children⟩

/-- Without a shift the second tree is the first one without its hidden attributes. -/
theorem eq_without (matched : left.Matches 0 hidden right) : right = left.without hidden := by
  have same : right.elements = (left.without hidden).elements := by
    apply List.ext_getElem?
    intro id
    rw [without, List.getElem?_map]
    change right.get? id = (left.get? id).map _
    by_cases valid : id < left.size
    · obtain ⟨before, found⟩ := exists_get? valid
      obtain ⟨after, found', same⟩ := matched.element (.inr rfl) found
      have children := matched.children id
      rw [Nat.add_zero] at found'
      rw [Nat.add_zero, childrenOf_eq found, childrenOf_eq found'] at children
      rw [found, found', Option.map_some, Option.some.injEq]
      exact Element.ext same.tag same.text same.attributes (by simpa using children)
        (by simpa using same.parent)
    · have outside : left.size ≤ id := Nat.le_of_not_lt valid
      rw [get?, get?, List.getElem?_eq_none outside,
        List.getElem?_eq_none (Nat.le_trans (Nat.le_of_eq matched.size) outside)]
      rfl
  cases right
  exact congrArg Tree.mk same

theorem eq (matched : left.Matches 0 [] right) : right = left := by
  rw [matched.eq_without, without_nil]

theorem attached (matched : left.Matches shift hidden right) (valid : parent < left.size)
    {element : Element} (leaf : element.children = []) (plain : element.attributes = {}) :
    (left.attached parent element).Matches shift hidden
      (right.attached (parent + shift) element) where
  size := by
    rw [size_attached, size_attached, matched.size]
    exact Nat.add_right_comm _ _ _
  children id := by
    have within := matched.valid valid
    by_cases same : id = parent
    · subst same
      -- The new children are the sizes, which are as far apart as all other numbers.
      rw [childrenOf_attached valid, childrenOf_attached within, matched.children, matched.size]
      simp
    · rw [childrenOf_attached_of_ne valid leaf same,
        childrenOf_attached_of_ne within leaf fun sum => same (Nat.add_right_cancel sum),
        matched.children]
  element := by
    intro id before free found
    have within := matched.valid valid
    rw [get?_attached valid] at found
    rw [get?_attached within, matched.size]
    by_cases new : id = left.size
    · subst new
      rw [if_pos rfl] at found
      cases found
      rw [if_pos rfl]
      exact ⟨_, rfl, rfl, rfl, by rw [plain]; rfl, rfl⟩
    · rw [if_neg new] at found
      rw [if_neg fun sum => new (Nat.add_right_cancel sum)]
      obtain ⟨old, held, rfl⟩ := Option.map_eq_some_iff.1 found
      obtain ⟨other, there, same⟩ := matched.element free held
      refine ⟨_, by rw [there]; rfl, ?_⟩
      dsimp only
      by_cases above : parent = id
      · subst above
        simpa using ⟨same.tag, same.text, same.attributes, same.parent⟩
      · rw [if_neg above, if_neg fun sum => above (Nat.add_right_cancel sum)]
        exact same

theorem modify (matched : left.Matches shift hidden right) {first second : Element → Element}
    (keepsFirst : KeepsLinks first) (keepsSecond : KeepsLinks second)
    (together : ∀ {before after : Element}, before.Matches shift hidden after →
      (first before).Matches shift hidden (second after)) :
    (left.modify id first).Matches shift hidden (right.modify (id + shift) second) where
  size := by rw [size_modify, size_modify, matched.size]
  children other := by
    rw [childrenOf_modify keepsFirst.children, childrenOf_modify keepsSecond.children,
      matched.children]
  element := by
    intro other before free found
    rw [get?_modify] at found
    obtain ⟨old, held, rfl⟩ := Option.map_eq_some_iff.1 found
    obtain ⟨new, there, same⟩ := matched.element free held
    refine ⟨_, by rw [get?_modify, there]; rfl, ?_⟩
    dsimp only
    by_cases here : id = other
    · subst here
      simpa using together same
    · rw [if_neg here, if_neg fun sum => here (Nat.add_right_cancel sum)]
      exact same

theorem detached (matched : left.Matches shift hidden right) (different : id ≠ parent) :
    (left.detached id parent).Matches shift hidden
      (right.detached (id + shift) (parent + shift)) where
  size := by rw [size_detached, size_detached, matched.size]
  children other := by
    have apart : id + shift ≠ parent + shift := fun sum => different (Nat.add_right_cancel sum)
    rw [childrenOf_detached different, childrenOf_detached apart, matched.children]
    by_cases above : other = parent
    · subst above
      rw [if_pos rfl, if_pos rfl, List.filter_map]
      congr 2
      funext child
      simp
    · rw [if_neg above, if_neg fun sum => above (Nat.add_right_cancel sum)]
  element := by
    intro other before free found
    have apart : id + shift ≠ parent + shift := fun sum => different (Nat.add_right_cancel sum)
    rw [get?_detached different] at found
    obtain ⟨old, held, rfl⟩ := Option.map_eq_some_iff.1 found
    obtain ⟨new, there, same⟩ := matched.element free held
    refine ⟨_, by rw [get?_detached apart, there]; rfl, ?_⟩
    dsimp only
    by_cases self : other = id
    · subst self
      simpa using ⟨same.tag, same.text, same.attributes, rfl⟩
    · rw [if_neg self, if_neg fun sum => self (Nat.add_right_cancel sum)]
      by_cases above : other = parent
      · subst above
        simpa using ⟨same.tag, same.text, same.attributes, same.parent⟩
      · rw [if_neg above, if_neg fun sum => above (Nat.add_right_cancel sum)]
        exact same

end Matches

end Tree

end Tracemark
