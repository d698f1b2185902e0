import Mathlib.Logic.Relation
import Tracemark.Proofs.Tree.Edit

/-! The two sides of a link, whatever is done to a tree.

A tree is mirrored when the children of an element are the elements that name it as their parent, each
of them once. Nothing more is asked: an element may stand below a younger one, below itself, or below
nothing. Making an element, taking one out and moving one change the parent of that element alone, and
keep a tree mirrored. No circle of parents comes about unless an element is moved to itself or to an
element below it.
-/

set_option autoImplicit false

namespace Tracemark.Tree

variable {tree before after : Tree} {id other parent child : NodeId} {element : Element}

def parentOf? (tree : Tree) (id : NodeId) : Option NodeId := (tree.get? id).bind (·.parent)

def ChildOf (tree : Tree) (child parent : NodeId) : Prop := tree.parentOf? child = some parent

/-- Children and parents name each other, and no child is named twice. -/
structure Mirrored (tree : Tree) : Prop where
  mem_iff : ∀ {parent child}, child ∈ tree.childrenOf parent ↔ tree.ChildOf child parent
  nodup : ∀ id, (tree.childrenOf id).Nodup

/-! What changes do to each side. -/

theorem parentOf?_of_outside (outside : tree.size ≤ id) : tree.parentOf? id = none := by
  have none : tree.get? id = none := List.getElem?_eq_none outside
  rw [parentOf?, none]
  rfl

theorem parentOf?_modify {change : Element → Element}
    (kept : ∀ element, (change element).parent = element.parent) :
    (tree.modify id change).parentOf? = tree.parentOf? := by
  funext other
  unfold parentOf?
  rw [get?_modify]
  cases tree.get? other with
  | none => rfl
  | some element => by_cases same : id = other <;> simp [same, kept]

theorem parentOf?_modify_parent (valid : id < tree.size) (above : Option NodeId) :
    (tree.modify id fun element => { element with parent := above }).parentOf? =
      Function.update tree.parentOf? id above := by
  funext other
  unfold parentOf?
  rw [get?_modify]
  by_cases same : other = id
  · subst same
    obtain ⟨element, found⟩ := exists_get? valid
    simp [found]
  · rw [Function.update_of_ne same]
    cases tree.get? other with
    | none => rfl
    | some element => simp [Ne.symm same]

theorem childrenOf_modify_children (valid : id < tree.size) (change : List NodeId → List NodeId) :
    (tree.modify id fun element => { element with children := change element.children }).childrenOf =
      Function.update tree.childrenOf id (change (tree.childrenOf id)) := by
  funext other
  by_cases same : other = id
  · subst same
    obtain ⟨element, found⟩ := exists_get? valid
    rw [Function.update_self, childrenOf_eq found, childrenOf, get?_modify_self, found]
    rfl
  · rw [Function.update_of_ne same, childrenOf, get?_modify_of_ne same]
    rfl

theorem parentOf?_attached (valid : parent < tree.size) :
    (tree.attached parent element).parentOf? =
      Function.update tree.parentOf? tree.size (some parent) := by
  funext other
  by_cases new : other = tree.size
  · subst new
    rw [Function.update_self, parentOf?, get?_attached_self valid]
    rfl
  · rw [Function.update_of_ne new, parentOf?, parentOf?, get?_attached valid, if_neg new]
    cases tree.get? other with
    | none => rfl
    | some above => by_cases same : parent = other <;> simp [same]

theorem childrenOf_attached_eq_update (valid : parent < tree.size) (leaf : element.children = []) :
    (tree.attached parent element).childrenOf =
      Function.update tree.childrenOf parent (tree.childrenOf parent ++ [tree.size]) := by
  funext other
  by_cases here : other = parent
  · subst here
    rw [Function.update_self, childrenOf_attached valid]
  · rw [Function.update_of_ne here, childrenOf_attached_of_ne valid leaf here]

theorem relinked (valid : id < tree.size) (held : parent < tree.size) (above : Option NodeId)
    (change : List NodeId → List NodeId) :
    let after := (tree.modify id fun element => { element with parent := above }).modify parent
      fun element => { element with children := change element.children }
    after.parentOf? = Function.update tree.parentOf? id above ∧
      after.childrenOf = Function.update tree.childrenOf parent (change (tree.childrenOf parent)) := by
  intro after
  let named : Tree := tree.modify id fun element => { element with parent := above }
  have kept : named.childrenOf = tree.childrenOf :=
    funext fun _ => childrenOf_modify fun _ => rfl
  have held' : parent < named.size := by
    rw [size_modify]
    exact held
  constructor
  · rw [← parentOf?_modify_parent valid]
    exact parentOf?_modify fun _ => rfl
  · rw [← kept]
    exact childrenOf_modify_children held' change

/-! Mirrored trees stay mirrored. -/

theorem mirrored_empty : Tree.empty.Mirrored where
  mem_iff := by
    intro parent child
    cases parent with
    | zero => cases child <;> simp [childrenOf, ChildOf, parentOf?, empty, get?]
    | succ parent => cases child <;> simp [childrenOf, ChildOf, parentOf?, empty, get?]
  nodup := by
    intro id
    cases id <;> simp [childrenOf, empty, get?]

theorem ChildOf.lt_size (named : tree.ChildOf child parent) : child < tree.size := by
  by_contra outside
  rw [ChildOf, parentOf?_of_outside (Nat.le_of_not_lt outside)] at named
  cases named

namespace Mirrored

theorem parent_lt (mirrored : tree.Mirrored) (named : tree.ChildOf child parent) :
    parent < tree.size := by
  obtain ⟨above, found, -⟩ := mem_childrenOf_iff.1 (mirrored.mem_iff.2 named)
  exact lt_size_of_get? found

theorem closed (mirrored : tree.Mirrored) : tree.Closed where
  child found member := (mirrored.mem_iff.1 (mem_childrenOf_iff.2 ⟨_, found, member⟩)).lt_size
  parent := by
    intro id element parent found named
    have child : tree.ChildOf id parent := by
      rw [ChildOf, parentOf?, found]
      exact named
    exact mirrored.parent_lt child

theorem gained (mirrored : before.Mirrored) (orphan : before.parentOf? id = none)
    (parents : after.parentOf? = Function.update before.parentOf? id (some parent))
    (children : after.childrenOf =
      Function.update before.childrenOf parent (before.childrenOf parent ++ [id])) :
    after.Mirrored := by
  have nowhere (above : NodeId) : id ∉ before.childrenOf above := by
    rw [mirrored.mem_iff, ChildOf, orphan]
    exact nofun
  constructor
  · intro above below
    rw [ChildOf, parents, children]
    by_cases same : below = id
    · subst same
      rw [Function.update_self]
      by_cases here : above = parent
      · subst here
        simp
      · rw [Function.update_of_ne here]
        simpa [nowhere above] using Ne.symm here
    · rw [Function.update_of_ne same]
      by_cases here : above = parent
      · subst here
        rw [Function.update_self, List.mem_append, List.mem_singleton, or_iff_left same]
        exact mirrored.mem_iff
      · rw [Function.update_of_ne here]
        exact mirrored.mem_iff
  · intro above
    rw [children]
    by_cases here : above = parent
    · subst here
      rw [Function.update_self, List.nodup_append]
      refine ⟨mirrored.nodup above, List.nodup_singleton _, ?_⟩
      intro below member new single same
      rw [List.mem_singleton.1 single] at same
      exact nowhere above (same ▸ member)
    · rw [Function.update_of_ne here]
      exact mirrored.nodup above

theorem lost (mirrored : before.Mirrored) (named : before.ChildOf id parent)
    (parents : after.parentOf? = Function.update before.parentOf? id none)
    (children : after.childrenOf =
      Function.update before.childrenOf parent ((before.childrenOf parent).filter (· ≠ id))) :
    after.Mirrored := by
  constructor
  · intro above below
    rw [ChildOf, parents, children]
    by_cases same : below = id
    · subst same
      rw [Function.update_self]
      by_cases here : above = parent
      · subst here
        simp
      · rw [Function.update_of_ne here, mirrored.mem_iff, ChildOf, named]
        simpa using Ne.symm here
    · rw [Function.update_of_ne same]
      by_cases here : above = parent
      · subst here
        rw [Function.update_self, List.mem_filter, and_iff_left (by simpa using same)]
        exact mirrored.mem_iff
      · rw [Function.update_of_ne here]
        exact mirrored.mem_iff
  · intro above
    rw [children]
    by_cases here : above = parent
    · subst here
      rw [Function.update_self]
      exact (mirrored.nodup above).filter _
    · rw [Function.update_of_ne here]
      exact mirrored.nodup above

theorem exists_attach (mirrored : tree.Mirrored) (valid : parent < tree.size)
    (leaf : element.children = []) :
    ∃ after, tree.attach parent element = .ok (tree.size, after) ∧ after.Mirrored ∧
      after.parentOf? = Function.update tree.parentOf? tree.size (some parent) := by
  have parents : (tree.attached parent element).parentOf? = _ := parentOf?_attached valid
  have mirrored' := mirrored.gained (parentOf?_of_outside (Nat.le_refl _)) parents
    (childrenOf_attached_eq_update valid leaf)
  exact ⟨_, attach_eq_ok valid, mirrored', parents⟩

theorem exists_detach (mirrored : tree.Mirrored) (valid : id < tree.size) :
    ∃ after, tree.detach id = .ok after ∧ after.Mirrored ∧ after.size = tree.size ∧
      after.parentOf? = Function.update tree.parentOf? id none := by
  obtain ⟨element, found⟩ := exists_get? valid
  have same : tree.parentOf? id = element.parent := by
    rw [parentOf?, found]
    rfl
  cases above : element.parent with
  | none =>
    refine ⟨tree, ?_, mirrored, rfl, ?_⟩
    · simp only [detach, element_eq_ok found, bind, Except.bind, above]
      rfl
    · rw [← above, ← same, Function.update_eq_self]
  | some parent =>
    have named : tree.ChildOf id parent := same.trans above
    have held := mirrored.parent_lt named
    obtain ⟨parents, children⟩ :=
      relinked valid held none fun children => children.filter (· ≠ id)
    exact ⟨_, detach_eq_ok found above held, mirrored.lost named parents children, size_detached,
      parents⟩

theorem exists_reattach (mirrored : tree.Mirrored) (valid : id < tree.size)
    (held : parent < tree.size) :
    ∃ after, tree.reattach parent id = .ok after ∧ after.Mirrored ∧ after.size = tree.size ∧
      after.parentOf? = Function.update tree.parentOf? id (some parent) := by
  obtain ⟨taken, detached, mirrored', size, parents⟩ := mirrored.exists_detach valid
  obtain ⟨after, moved, -, size'⟩ := mirrored.closed.exists_reattach valid held
  obtain ⟨taken', detached', rfl⟩ := of_reattach moved
  cases detached.symm.trans detached'
  rw [← size] at valid held
  have orphan : taken.parentOf? id = none := by
    rw [parents, Function.update_self]
  obtain ⟨parents', children⟩ :=
    relinked valid held (some parent) fun children => children ++ [id]
  refine ⟨_, moved, mirrored'.gained orphan parents' children, size', ?_⟩
  rw [parents, Function.update_idem] at parents'
  exact parents'

end Mirrored

/-! Circles of parents. -/

/-- No chain of parents leads back to where it starts. -/
def Uncircled (tree : Tree) : Prop := ∀ id, ¬Relation.TransGen tree.ChildOf id id

theorem uncircled_empty : Tree.empty.Uncircled := by
  intro id circle
  obtain ⟨parent, named, -⟩ := Relation.TransGen.head'_iff.1 circle
  cases id with
  | zero => cases named
  | succ id => simp [ChildOf, parentOf?, empty, get?] at named

theorem Uncircled.orphaned (uncircled : before.Uncircled)
    (parents : after.parentOf? = Function.update before.parentOf? id none) : after.Uncircled := by
  have old (child parent : NodeId) (named : after.ChildOf child parent) :
      before.ChildOf child parent := by
    rw [ChildOf, parents] at named
    by_cases same : child = id
    · rw [same, Function.update_self] at named
      cases named
    · rwa [Function.update_of_ne same] at named
  intro other circle
  exact uncircled other (Relation.TransGen.mono old _ _ circle)

section

variable (parents : after.parentOf? = Function.update before.parentOf? id (some parent))

include parents

theorem childOf_cases (named : after.ChildOf child other) :
    child = id ∧ other = parent ∨ before.ChildOf child other := by
  rw [ChildOf, parents] at named
  by_cases same : child = id
  · rw [same, Function.update_self] at named
    exact .inl ⟨same, (Option.some.inj named).symm⟩
  · rw [Function.update_of_ne same] at named
    exact .inr named

-- A chain passes the new link once at most, since no chain leads from the new parent back to it.
theorem chain_cases (apart : ¬Relation.ReflTransGen before.ChildOf parent id) {top : NodeId}
    (chain : Relation.ReflTransGen after.ChildOf other top) :
    Relation.ReflTransGen before.ChildOf other top ∨
      Relation.ReflTransGen before.ChildOf other id ∧
        Relation.ReflTransGen before.ChildOf parent top := by
  induction chain with
  | refl => exact .inl .refl
  | tail _ named ih =>
    rcases childOf_cases parents named with ⟨rfl, rfl⟩ | old
    · rcases ih with below | ⟨-, above⟩
      · exact .inr ⟨below, .refl⟩
      · exact absurd above apart
    · rcases ih with below | ⟨below, above⟩
      · exact .inl (below.tail old)
      · exact .inr ⟨below, above.tail old⟩

theorem Uncircled.moved (uncircled : before.Uncircled)
    (apart : ¬Relation.ReflTransGen before.ChildOf parent id) : after.Uncircled := by
  intro other circle
  obtain ⟨above, named, chain⟩ := Relation.TransGen.head'_iff.1 circle
  rcases childOf_cases parents named with ⟨rfl, rfl⟩ | old
  · rcases chain_cases parents apart chain with back | ⟨-, back⟩
    · exact apart back
    · exact apart back
  · rcases chain_cases parents apart chain with back | ⟨below, back⟩
    · exact uncircled other (Relation.TransGen.head' old back)
    · exact apart (back.trans (below.head old))

end

end Tracemark.Tree
