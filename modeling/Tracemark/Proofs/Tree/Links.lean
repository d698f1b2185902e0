import Mathlib.Data.List.Nodup
import Tracemark.Tree.Basic

/-! Links between the elements of a tree.

Each operation is given as a pure change of the list of elements, for the elements that the tree
holds. A tree is linked when children and parents name each other and no element is named twice; it
is ordered when, beyond that, parents were made before their children. Attaching, detaching and
changes that keep the links of an element preserve both.
-/

set_option autoImplicit false

namespace Tracemark.Tree

variable {tree : Tree} {id other parent child : NodeId} {element : Element}

def childrenOf (tree : Tree) (id : NodeId) : List NodeId :=
  ((tree.get? id).map (·.children)).getD []

theorem lt_size_of_get? (found : tree.get? id = some element) : id < tree.size :=
  (List.getElem?_eq_some_iff.1 found).1

theorem exists_get? (valid : id < tree.size) : ∃ element, tree.get? id = some element :=
  ⟨_, List.getElem?_eq_getElem valid⟩

theorem childrenOf_eq (found : tree.get? id = some element) :
    tree.childrenOf id = element.children := by
  simp [childrenOf, found]

theorem mem_childrenOf_iff : child ∈ tree.childrenOf id ↔
    ∃ element, tree.get? id = some element ∧ child ∈ element.children := by
  unfold childrenOf
  cases found : tree.get? id <;> simp

theorem element_eq_ok (found : tree.get? id = some element) : tree.element id = .ok element := by
  simp [Tree.element, found]

theorem children_eq_ok (valid : id < tree.size) : tree.children id = .ok (tree.childrenOf id) := by
  obtain ⟨element, found⟩ := exists_get? valid
  rw [children, element_eq_ok found, childrenOf_eq found]
  rfl

theorem lastChild?_eq_ok (valid : id < tree.size) :
    tree.lastChild? id = .ok (tree.childrenOf id).getLast? := by
  rw [lastChild?, children_eq_ok valid]
  rfl

/-! Pure changes. -/

def modify (tree : Tree) (id : NodeId) (change : Element → Element) : Tree :=
  ⟨tree.elements.modify id change⟩

theorem update_eq_ok {change : Element → Element} (valid : id < tree.size) :
    tree.update id change = .ok (tree.modify id change) :=
  if_pos valid

@[simp] theorem size_modify {change : Element → Element} :
    (tree.modify id change).size = tree.size := by
  simp [modify, size]

theorem get?_modify {change : Element → Element} : (tree.modify id change).get? other =
    (tree.get? other).map fun element => if id = other then change element else element :=
  List.getElem?_modify change id tree.elements other

theorem get?_modify_self {change : Element → Element} :
    (tree.modify id change).get? id = (tree.get? id).map change := by
  simp [get?_modify]

theorem get?_modify_of_ne {change : Element → Element} (different : other ≠ id) :
    (tree.modify id change).get? other = tree.get? other := by
  simp [get?_modify, Ne.symm different]

theorem childrenOf_modify {change : Element → Element}
    (kept : ∀ element, (change element).children = element.children) :
    (tree.modify id change).childrenOf other = tree.childrenOf other := by
  unfold childrenOf
  rw [get?_modify]
  cases tree.get? other with
  | none => rfl
  | some element => by_cases same : id = other <;> simp [same, kept]

def attached (tree : Tree) (parent : NodeId) (element : Element) : Tree :=
  (Tree.mk (tree.elements ++ [{ element with parent := some parent }])).modify parent fun above =>
    { above with children := above.children ++ [tree.size] }

theorem attach_eq_ok (valid : parent < tree.size) :
    tree.attach parent element = .ok (tree.size, tree.attached parent element) := by
  have within : parent < (Tree.mk (tree.elements ++ [{ element with parent := some parent }])).size := by
    simpa [size] using Nat.lt_succ_of_lt valid
  simp only [attach, update_eq_ok within]
  rfl

@[simp] theorem size_attached : (tree.attached parent element).size = tree.size + 1 := by
  rw [attached, size_modify]
  simp [size]

theorem size_lt_attached (tree : Tree) (parent : NodeId) (element : Element) :
    tree.size < (tree.attached parent element).size := by
  rw [size_attached]
  exact Nat.lt_succ_self _

theorem get?_attached (valid : parent < tree.size) : (tree.attached parent element).get? id =
    if id = tree.size then some { element with parent := some parent }
    else (tree.get? id).map fun above =>
      if parent = id then { above with children := above.children ++ [tree.size] } else above := by
  rw [attached, get?_modify]
  by_cases new : id = tree.size
  · have away : parent ≠ tree.size := Nat.ne_of_lt valid
    simp [new, get?, size] at away ⊢
    exact fun same => absurd same away
  · rw [if_neg new]
    congr 1
    rw [get?, get?, List.getElem?_append]
    split
    · rfl
    · next outside =>
      have beyond : tree.elements.length + 1 ≤ id :=
        Nat.lt_of_le_of_ne (Nat.le_of_not_lt outside) (Ne.symm new)
      rw [List.getElem?_eq_none (Nat.le_of_succ_le beyond),
        List.getElem?_eq_none (by simpa using Nat.le_sub_of_add_le' beyond)]

theorem get?_attached_self (valid : parent < tree.size) :
    (tree.attached parent element).get? tree.size = some { element with parent := some parent } := by
  rw [get?_attached valid, if_pos rfl]

theorem get?_attached_parent {above : Element} (found : tree.get? parent = some above) :
    (tree.attached parent element).get? parent =
      some { above with children := above.children ++ [tree.size] } := by
  have valid := lt_size_of_get? found
  rw [get?_attached valid, if_neg (Nat.ne_of_lt valid), found]
  simp

theorem get?_attached_of_ne (valid : parent < tree.size) (old : id ≠ tree.size)
    (different : id ≠ parent) : (tree.attached parent element).get? id = tree.get? id := by
  rw [get?_attached valid, if_neg old]
  simp [Ne.symm different]

theorem childrenOf_attached (valid : parent < tree.size) :
    (tree.attached parent element).childrenOf parent = tree.childrenOf parent ++ [tree.size] := by
  obtain ⟨above, found⟩ := exists_get? valid
  rw [childrenOf_eq (get?_attached_parent found), childrenOf_eq found]

theorem getLast?_childrenOf_attached (valid : parent < tree.size) (element : Element) :
    ((tree.attached parent element).childrenOf parent).getLast? = some tree.size := by
  rw [childrenOf_attached valid, List.getLast?_concat]

theorem childrenOf_attached_of_ne (valid : parent < tree.size) (leaf : element.children = [])
    (different : id ≠ parent) : (tree.attached parent element).childrenOf id = tree.childrenOf id := by
  by_cases new : id = tree.size
  · subst new
    rw [childrenOf_eq (get?_attached_self valid), leaf, childrenOf, get?, List.getElem?_eq_none]
    · rfl
    · exact Nat.le_refl _
  · rw [childrenOf, childrenOf, get?_attached_of_ne valid new different]

def detached (tree : Tree) (id parent : NodeId) : Tree :=
  (tree.modify id fun element => { element with parent := none }).modify parent fun above =>
    { above with children := above.children.filter (· ≠ id) }

theorem detach_eq_ok (found : tree.get? id = some element) (linked : element.parent = some parent)
    (valid : parent < tree.size) : tree.detach id = .ok (tree.detached id parent) := by
  have within : id < tree.size := lt_size_of_get? found
  simp only [detach, element_eq_ok found, bind, Except.bind, linked, update_eq_ok within]
  exact update_eq_ok (by simpa using valid)

@[simp] theorem size_detached : (tree.detached id parent).size = tree.size := by
  simp [detached]

theorem get?_detached_of_ne (notSelf : other ≠ id) (notParent : other ≠ parent) :
    (tree.detached id parent).get? other = tree.get? other := by
  rw [detached, get?_modify_of_ne notParent, get?_modify_of_ne notSelf]

/-! Linked and ordered trees. -/

/-- The two sides of every link agree, and the root has no parent. -/
structure Linked (tree : Tree) : Prop where
  root : ∃ element, tree.get? Tree.root = some element ∧ element.parent = none
  parent_of_mem : ∀ {id element child}, tree.get? id = some element → child ∈ element.children →
    ∃ below, tree.get? child = some below ∧ below.parent = some id
  mem_of_parent : ∀ {id element parent}, tree.get? id = some element →
    element.parent = some parent → ∃ above, tree.get? parent = some above ∧ id ∈ above.children
  nodup : ∀ {id element}, tree.get? id = some element → element.children.Nodup

/-- A linked tree in which every parent was made before its children. -/
structure Ordered (tree : Tree) : Prop extends tree.Linked where
  parent_lt : ∀ {id element parent}, tree.get? id = some element →
    element.parent = some parent → parent < id

theorem ordered_empty : Tree.empty.Ordered := by
  have only : ∀ {id : NodeId} {element : Element}, Tree.empty.get? id = some element →
      element = { tag := "div" } := by
    intro id element found
    cases id with
    | zero => exact (Option.some.inj found).symm
    | succ id => simp [empty, get?] at found
  refine ⟨⟨⟨_, rfl, rfl⟩, ?_, ?_, ?_⟩, ?_⟩
  · intro id element child found member
    simp [only found] at member
  · intro id element parent found named
    simp [only found] at named
  · intro id element found
    simp [only found]
  · intro id element parent found named
    simp [only found] at named

theorem Linked.root_lt_size (linked : tree.Linked) : Tree.root < tree.size := by
  obtain ⟨element, found, -⟩ := linked.root
  exact lt_size_of_get? found

theorem Linked.child_lt_size (linked : tree.Linked) (member : child ∈ tree.childrenOf id) :
    child < tree.size := by
  obtain ⟨element, found, member⟩ := mem_childrenOf_iff.1 member
  obtain ⟨below, found, -⟩ := linked.parent_of_mem found member
  exact lt_size_of_get? found

theorem Linked.nodup_childrenOf (linked : tree.Linked) (id : NodeId) :
    (tree.childrenOf id).Nodup := by
  unfold childrenOf
  cases found : tree.get? id with
  | none => simp
  | some element => exact linked.nodup found

theorem Linked.eq_of_mem_childrenOf (linked : tree.Linked) (first : child ∈ tree.childrenOf id)
    (second : child ∈ tree.childrenOf other) : id = other := by
  obtain ⟨above, found, member⟩ := mem_childrenOf_iff.1 first
  obtain ⟨above', found', member'⟩ := mem_childrenOf_iff.1 second
  obtain ⟨below, here, named⟩ := linked.parent_of_mem found member
  obtain ⟨below', here', named'⟩ := linked.parent_of_mem found' member'
  rw [here] at here'
  cases here'
  exact Option.some.inj (named.symm.trans named')

theorem Linked.root_not_mem (linked : tree.Linked) : Tree.root ∉ tree.childrenOf id := by
  intro member
  obtain ⟨above, found, member⟩ := mem_childrenOf_iff.1 member
  obtain ⟨below, here, named⟩ := linked.parent_of_mem found member
  obtain ⟨top, atRoot, orphan⟩ := linked.root
  rw [here] at atRoot
  cases atRoot
  simp [orphan] at named

/-! Attaching, detaching and plain changes keep a tree linked and ordered. -/

structure KeepsLinks (change : Element → Element) : Prop where
  children : ∀ element, (change element).children = element.children
  parent : ∀ element, (change element).parent = element.parent

theorem of_get?_modify {change : Element → Element} (keeps : KeepsLinks change) {after : Element}
    (found : (tree.modify id change).get? other = some after) :
    ∃ before, tree.get? other = some before ∧ after.children = before.children ∧
      after.parent = before.parent := by
  rw [get?_modify] at found
  obtain ⟨before, held, rfl⟩ := Option.map_eq_some_iff.1 found
  refine ⟨before, held, ?_⟩
  split
  · exact ⟨keeps.children before, keeps.parent before⟩
  · exact ⟨rfl, rfl⟩

theorem exists_get?_modify (id : NodeId) {change : Element → Element}
    (keeps : KeepsLinks change) {before : Element} (held : tree.get? other = some before) :
    ∃ after, (tree.modify id change).get? other = some after ∧
      after.children = before.children ∧ after.parent = before.parent := by
  rw [get?_modify, held]
  refine ⟨_, rfl, ?_⟩
  split
  · exact ⟨keeps.children before, keeps.parent before⟩
  · exact ⟨rfl, rfl⟩

theorem Linked.modify (linked : tree.Linked) {change : Element → Element}
    (keeps : KeepsLinks change) : (tree.modify id change).Linked where
  root := by
    obtain ⟨top, atRoot, orphan⟩ := linked.root
    obtain ⟨after, found, -, named⟩ := exists_get?_modify id keeps atRoot
    exact ⟨after, found, named.trans orphan⟩
  parent_of_mem := by
    intro above after child found member
    obtain ⟨before, held, children, -⟩ := of_get?_modify keeps found
    obtain ⟨below, here, named⟩ := linked.parent_of_mem held (children ▸ member)
    obtain ⟨below', here', -, named'⟩ := exists_get?_modify id keeps here
    exact ⟨below', here', named'.trans named⟩
  mem_of_parent := by
    intro below after parent found named
    obtain ⟨before, held, -, same⟩ := of_get?_modify keeps found
    obtain ⟨above, there, member⟩ := linked.mem_of_parent held (same ▸ named)
    obtain ⟨above', there', children, -⟩ := exists_get?_modify id keeps there
    exact ⟨above', there', children ▸ member⟩
  nodup := by
    intro above after found
    obtain ⟨before, held, children, -⟩ := of_get?_modify keeps found
    exact children ▸ linked.nodup held

theorem Ordered.modify (ordered : tree.Ordered) {change : Element → Element}
    (keeps : KeepsLinks change) : (tree.modify id change).Ordered where
  toLinked := ordered.toLinked.modify keeps
  parent_lt := by
    intro below after parent found named
    obtain ⟨before, held, -, same⟩ := of_get?_modify keeps found
    exact ordered.parent_lt held (same ▸ named)

theorem of_get?_attached {after : Element} (valid : parent < tree.size)
    (found : (tree.attached parent element).get? id = some after) :
    id = tree.size ∧ after = { element with parent := some parent } ∨
      ∃ before, tree.get? id = some before ∧ after.parent = before.parent ∧
        (id = parent ∧ after.children = before.children ++ [tree.size] ∨
          id ≠ parent ∧ after = before) := by
  rw [get?_attached valid] at found
  split at found
  · next new => exact .inl ⟨new, (Option.some.inj found).symm⟩
  · obtain ⟨before, held, rfl⟩ := Option.map_eq_some_iff.1 found
    refine .inr ⟨before, held, ?_⟩
    by_cases same : parent = id
    · simp [same]
    · simp [same, Ne.symm same]

theorem exists_get?_attached (element : Element) {before : Element} (valid : parent < tree.size)
    (held : tree.get? id = some before) :
    ∃ after, (tree.attached parent element).get? id = some after ∧
      after.parent = before.parent ∧ before.children ⊆ after.children := by
  have old : id ≠ tree.size := Nat.ne_of_lt (lt_size_of_get? held)
  rw [get?_attached valid, if_neg old, held]
  refine ⟨_, rfl, ?_⟩
  split <;> simp

theorem Linked.attached (linked : tree.Linked) (valid : parent < tree.size)
    (leaf : element.children = []) : (tree.attached parent element).Linked where
  root := by
    obtain ⟨top, atRoot, orphan⟩ := linked.root
    obtain ⟨after, found, named, -⟩ := exists_get?_attached element valid atRoot
    exact ⟨after, found, named.trans orphan⟩
  parent_of_mem := by
    intro above after child found member
    have below (old : child ∈ tree.childrenOf above) : ∃ below,
        (tree.attached parent element).get? child = some below ∧ below.parent = some above := by
      obtain ⟨before, held, member⟩ := mem_childrenOf_iff.1 old
      obtain ⟨below, here, named⟩ := linked.parent_of_mem held member
      obtain ⟨below', here', named', -⟩ := exists_get?_attached element valid here
      exact ⟨below', here', named'.trans named⟩
    rcases of_get?_attached valid found with ⟨-, rfl⟩ | ⟨before, held, -, rest⟩
    · simp [leaf] at member
    · rcases rest with ⟨rfl, children⟩ | ⟨-, rfl⟩
      · rw [children, List.mem_append, List.mem_singleton] at member
        rcases member with old | rfl
        · exact below (mem_childrenOf_iff.2 ⟨before, held, old⟩)
        · exact ⟨_, get?_attached_self valid, rfl⟩
      · exact below (mem_childrenOf_iff.2 ⟨after, held, member⟩)
  mem_of_parent := by
    intro below after above found named
    rcases of_get?_attached valid found with ⟨rfl, rfl⟩ | ⟨before, held, same, -⟩
    · cases named
      obtain ⟨old, there⟩ := exists_get? valid
      exact ⟨_, get?_attached_parent there, by simp⟩
    · obtain ⟨old, there, member⟩ := linked.mem_of_parent held (same ▸ named)
      obtain ⟨new, there', -, kept⟩ := exists_get?_attached element valid there
      exact ⟨new, there', kept member⟩
  nodup := by
    intro above after found
    rcases of_get?_attached valid found with ⟨-, rfl⟩ | ⟨before, held, -, rest⟩
    · simp [leaf]
    · rcases rest with ⟨rfl, children⟩ | ⟨-, rfl⟩
      · rw [children]
        apply List.Nodup.append (linked.nodup held) (List.nodup_singleton _)
        rw [List.disjoint_singleton]
        intro member
        exact Nat.lt_irrefl _ (linked.child_lt_size (mem_childrenOf_iff.2 ⟨before, held, member⟩))
      · exact linked.nodup held

theorem Ordered.attached (ordered : tree.Ordered) (valid : parent < tree.size)
    (leaf : element.children = []) : (tree.attached parent element).Ordered where
  toLinked := ordered.toLinked.attached valid leaf
  parent_lt := by
    intro below after above found named
    rcases of_get?_attached valid found with ⟨rfl, rfl⟩ | ⟨before, held, same, -⟩
    · cases named
      exact valid
    · exact ordered.parent_lt held (same ▸ named)

theorem get?_detached (different : id ≠ parent) : (tree.detached id parent).get? other =
    (tree.get? other).map fun element =>
      if other = id then { element with parent := none }
      else if other = parent then { element with children := element.children.filter (· ≠ id) }
      else element := by
  rw [detached, get?_modify, get?_modify]
  cases tree.get? other with
  | none => rfl
  | some element =>
    by_cases self : other = id
    · subst self
      simp [Ne.symm different]
    · by_cases above : other = parent
      · subst above
        simp [different, Ne.symm different]
      · simp [self, above, Ne.symm self, Ne.symm above]

theorem childrenOf_detached (different : id ≠ parent) :
    (tree.detached id parent).childrenOf other =
      if other = parent then (tree.childrenOf other).filter (· ≠ id) else tree.childrenOf other := by
  unfold childrenOf
  rw [get?_detached different]
  cases tree.get? other with
  | none => simp
  | some element =>
    by_cases self : other = id
    · subst self
      simp [different]
    · by_cases above : other = parent <;> simp [self, above, Ne.symm different]

theorem of_get?_detached {after : Element} (different : id ≠ parent)
    (found : (tree.detached id parent).get? other = some after) :
    ∃ before, tree.get? other = some before ∧ after.children ⊆ before.children ∧
      (before.children.Nodup → after.children.Nodup) ∧
      (∀ child ∈ after.children, other = parent → child ≠ id) ∧
      (∀ child ∈ before.children, child ≠ id → child ∈ after.children) ∧
      after.parent = if other = id then none else before.parent := by
  rw [get?_detached different] at found
  obtain ⟨before, held, rfl⟩ := Option.map_eq_some_iff.1 found
  refine ⟨before, held, ?_⟩
  by_cases self : other = id
  · subst self
    simp +contextual [different]
  · by_cases above : other = parent
    · subst above
      simp only [self, if_true, if_false]
      exact ⟨List.filter_subset_self _, fun distinct => distinct.filter _, by simp,
        by simp +contextual, trivial⟩
    · simp +contextual [self, above]

theorem exists_get?_detached {before : Element} (different : id ≠ parent)
    (held : tree.get? other = some before) :
    ∃ after, (tree.detached id parent).get? other = some after := by
  rw [get?_detached different, held]
  exact ⟨_, rfl⟩

theorem Linked.detached (linked : tree.Linked) (named : child ∈ tree.childrenOf parent)
    (different : child ≠ parent) : (tree.detached child parent).Linked where
  root := by
    obtain ⟨top, atRoot, orphan⟩ := linked.root
    obtain ⟨after, found⟩ := exists_get?_detached different atRoot
    obtain ⟨before, held, -, -, -, -, same⟩ := of_get?_detached different found
    rw [atRoot] at held
    cases held
    refine ⟨after, found, ?_⟩
    rw [same, orphan]
    simp
  parent_of_mem := by
    intro above after below found member
    obtain ⟨before, held, kept, -, gone, -, -⟩ := of_get?_detached different found
    obtain ⟨old, here, parentOf⟩ := linked.parent_of_mem held (kept member)
    obtain ⟨new, here'⟩ := exists_get?_detached different here
    obtain ⟨old', here'', -, -, -, -, same⟩ := of_get?_detached different here'
    rw [here] at here''
    cases here''
    refine ⟨new, here', ?_⟩
    have other : below ≠ child := by
      rintro rfl
      have unique := linked.eq_of_mem_childrenOf named
        (mem_childrenOf_iff.2 ⟨before, held, kept member⟩)
      exact gone _ member unique.symm rfl
    rw [same, if_neg other, parentOf]
  mem_of_parent := by
    intro below after above found parentOf
    obtain ⟨before, held, -, -, -, -, same⟩ := of_get?_detached different found
    rw [same] at parentOf
    split at parentOf
    · cases parentOf
    · next other =>
      obtain ⟨old, there, member⟩ := linked.mem_of_parent held parentOf
      obtain ⟨new, there'⟩ := exists_get?_detached different there
      obtain ⟨old', there'', -, -, -, kept, -⟩ := of_get?_detached different there'
      rw [there] at there''
      cases there''
      exact ⟨new, there', kept _ member other⟩
  nodup := by
    intro above after found
    obtain ⟨before, held, -, distinct, -⟩ := of_get?_detached different found
    exact distinct (linked.nodup held)

theorem Ordered.detached (ordered : tree.Ordered) (named : child ∈ tree.childrenOf parent)
    (different : child ≠ parent) : (tree.detached child parent).Ordered where
  toLinked := ordered.toLinked.detached named different
  parent_lt := by
    intro below after above found parentOf
    obtain ⟨before, held, -, -, -, -, same⟩ := of_get?_detached different found
    rw [same] at parentOf
    split at parentOf
    · cases parentOf
    · exact ordered.parent_lt held parentOf

theorem Ordered.lt_of_mem_childrenOf (ordered : tree.Ordered) (named : child ∈ tree.childrenOf id) :
    id < child := by
  obtain ⟨above, found, member⟩ := mem_childrenOf_iff.1 named
  obtain ⟨below, here, parentOf⟩ := ordered.parent_of_mem found member
  exact ordered.parent_lt here parentOf

end Tracemark.Tree
