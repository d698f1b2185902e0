import Tracemark.Proofs.Tree.Acyclic
import Tracemark.Proofs.Tree.Mirrored
import Tracemark.Tree.Branch

/-! The elements below an element.

They are listed by a walk that keeps a stack, and by recursion on children. Without a circle of parents
both come to an end and list the same: the elements from which a chain of parents leads up to the
element, each of them once. Trees come to be by operations one after another, and have no such circle
unless an operation moved an element to itself or to an element below it.
-/

set_option autoImplicit false

namespace Tracemark.Tree

variable {tree : Tree} {id other child : NodeId} {above stack listed : List NodeId}

/-! Parents and children. -/

theorem Mirrored.reflTransGen_of_under (mirrored : tree.Mirrored) (under : tree.Under id other) :
    Relation.ReflTransGen tree.ChildOf other id := by
  induction under with
  | here => exact .refl
  | deeper _ member ih => exact ih.head (mirrored.mem_iff.1 member)

theorem Mirrored.acyclic (mirrored : tree.Mirrored) (uncircled : tree.Uncircled) : tree.Acyclic := by
  intro id child member under
  have chain := mirrored.reflTransGen_of_under under
  exact uncircled child (Relation.TransGen.head' (mirrored.mem_iff.1 member) chain)

theorem Acyclic.induction (acyclic : tree.Acyclic) (closed : tree.Closed) {motive : NodeId → Prop}
    (step : ∀ id < tree.size, (∀ child ∈ tree.childrenOf id, motive child) → motive id)
    (valid : id < tree.size) : motive id := by
  -- The chain of elements above is as long as what is missing of the size.
  have bounded (depth : Nat) {id : NodeId} {above : List NodeId} (chain : tree.Chain id above)
      (enough : tree.size ≤ depth + above.length) : motive id := by
    induction depth generalizing id above with
    | zero =>
      have shorter := chain.length_lt
      omega
    | succ depth ih =>
      apply step id (chain.inside id List.mem_cons_self)
      intro child member
      apply ih (chain.deeper closed acyclic member)
      rw [List.length_cons]
      omega
  exact bounded tree.size (chain_self valid) (Nat.le_refl _)

/-! Recursion on children. -/

def below (tree : Tree) (id : NodeId) : List NodeId :=
  (tree.childrenOf id).flatMap (tree.preorder tree.size)

theorem preorder_succ (depth : Nat) (id : NodeId) : tree.preorder (depth + 1) id =
    id :: (tree.childrenOf id).flatMap (tree.preorder depth) :=
  rfl

-- One more level shows nothing new once the depth makes up for the elements above.
theorem Chain.preorder_succ_eq (chain : tree.Chain id above) (closed : tree.Closed)
    (acyclic : tree.Acyclic) {depth : Nat} (enough : tree.size ≤ depth + above.length) :
    tree.preorder (depth + 1) id = tree.preorder depth id := by
  induction depth generalizing id above with
  | zero =>
    have shorter := chain.length_lt
    omega
  | succ depth ih =>
    rw [preorder_succ, preorder_succ]
    congr 1
    apply List.flatMap_congr
    intro child member
    apply ih (chain.deeper closed acyclic member)
    rw [List.length_cons]
    omega

section

variable (closed : tree.Closed) (acyclic : tree.Acyclic)

include closed acyclic

theorem preorder_size (valid : id < tree.size) :
    tree.preorder tree.size id = id :: tree.below id := by
  have deep : tree.preorder (tree.size + 1) id = tree.preorder tree.size id :=
    (chain_self valid).preorder_succ_eq closed acyclic (Nat.le_refl _)
  exact deep.symm.trans (preorder_succ _ _)

/-- Each child stands in front of the elements below it. -/
theorem below_eq : tree.below id =
    (tree.childrenOf id).flatMap fun child => child :: tree.below child := by
  apply List.flatMap_congr
  intro child member
  exact preorder_size closed acyclic (closed.lt_size member)

end

/-! The walk with a stack. -/

/-- The walk that takes an element off the stack, lists it and puts its children in its place, until
the stack is empty. -/
inductive Walked (tree : Tree) : (stack listed : List NodeId) → Prop
  | done : tree.Walked [] []
  | next {id : NodeId} {stack listed : List NodeId} :
    tree.Walked (tree.childrenOf id ++ stack) listed → tree.Walked (id :: stack) (id :: listed)

/-- A walk that comes to its end is the walk with as many steps as it lists elements, or more. -/
theorem Walked.walk_eq (walked : tree.Walked stack listed) {fuel : Nat}
    (enough : listed.length ≤ fuel) : tree.walk fuel stack = listed := by
  induction walked generalizing fuel with
  | done => cases fuel <;> rfl
  | next _ ih =>
    cases fuel with
    | zero => cases enough
    | succ fuel => exact congrArg _ (ih (Nat.le_of_succ_le_succ enough))

theorem walked_flatMap {ids : List NodeId} {listing : NodeId → List NodeId}
    (each : ∀ id ∈ ids, ∀ stack listed, tree.Walked stack listed →
      tree.Walked (id :: stack) (listing id ++ listed)) (walked : tree.Walked stack listed) :
    tree.Walked (ids ++ stack) (ids.flatMap listing ++ listed) := by
  induction ids with
  | nil => exact walked
  | cons id rest ih =>
    rw [List.forall_mem_cons] at each
    rw [List.flatMap_cons, List.append_assoc]
    exact each.1 _ _ (ih each.2)

theorem walked_below (closed : tree.Closed) (acyclic : tree.Acyclic) (id : NodeId) :
    tree.Walked (tree.childrenOf id) (tree.below id) := by
  have each : ∀ id < tree.size, ∀ stack listed, tree.Walked stack listed →
      tree.Walked (id :: stack) (tree.preorder tree.size id ++ listed) := by
    intro id valid
    refine acyclic.induction closed (motive := fun id => ∀ stack listed, tree.Walked stack listed →
      tree.Walked (id :: stack) (tree.preorder tree.size id ++ listed)) ?_ valid
    intro id valid deeper stack listed walked
    rw [preorder_size closed acyclic valid]
    exact .next (walked_flatMap deeper walked)
  have children (child : NodeId) (member : child ∈ tree.childrenOf id) :=
    each child (closed.lt_size member)
  have walked := walked_flatMap children .done
  rw [List.append_nil, List.append_nil] at walked
  exact walked

/-! Which elements are listed. -/

section

variable (mirrored : tree.Mirrored) (uncircled : tree.Uncircled)

include mirrored uncircled

theorem mem_preorder_iff (valid : id < tree.size) : other ∈ tree.preorder tree.size id ↔
    Relation.ReflTransGen tree.ChildOf other id := by
  have acyclic := mirrored.acyclic uncircled
  refine acyclic.induction mirrored.closed (motive := fun id =>
    other ∈ tree.preorder tree.size id ↔ Relation.ReflTransGen tree.ChildOf other id) ?_ valid
  intro id valid deeper
  rw [preorder_size mirrored.closed acyclic valid, List.mem_cons, below, List.mem_flatMap,
    Relation.ReflTransGen.cases_tail_iff]
  constructor
  · rintro (rfl | ⟨child, member, listed⟩)
    · exact .inl rfl
    · exact .inr ⟨child, (deeper child member).1 listed, mirrored.mem_iff.1 member⟩
  · rintro (rfl | ⟨child, chain, named⟩)
    · exact .inl rfl
    · have member := mirrored.mem_iff.2 named
      exact .inr ⟨child, member, (deeper child member).2 chain⟩

theorem mem_below_iff : other ∈ tree.below id ↔ Relation.TransGen tree.ChildOf other id := by
  rw [below, List.mem_flatMap, Relation.TransGen.tail'_iff]
  constructor
  · rintro ⟨child, member, listed⟩
    have valid := mirrored.closed.lt_size member
    exact ⟨child, (mem_preorder_iff mirrored uncircled valid).1 listed, mirrored.mem_iff.1 member⟩
  · rintro ⟨child, chain, named⟩
    have member := mirrored.mem_iff.2 named
    have valid := mirrored.closed.lt_size member
    exact ⟨child, member, (mem_preorder_iff mirrored uncircled valid).2 chain⟩

omit mirrored in
theorem eq_of_chains {first second : NodeId} (named : tree.ChildOf first id)
    (named' : tree.ChildOf second id) (chain : Relation.ReflTransGen tree.ChildOf other first)
    (chain' : Relation.ReflTransGen tree.ChildOf other second) : first = second := by
  -- An element has one parent, so a chain from a child passes the element and ends above it.
  have apart {first second : NodeId} (named : tree.ChildOf first id)
      (named' : tree.ChildOf second id) (chain : Relation.ReflTransGen tree.ChildOf first second) :
      first = second := by
    rcases Relation.ReflTransGen.cases_head_iff.1 chain with same | ⟨parent, step, rest⟩
    · exact same
    · cases Option.some.inj (step.symm.trans named)
      exact absurd (Relation.TransGen.tail' rest named') (uncircled _)
  have unique : Relator.RightUnique tree.ChildOf := fun _ _ _ named named' =>
    Option.some.inj (named.symm.trans named')
  rcases Relation.ReflTransGen.total_of_right_unique unique chain chain' with up | up
  · exact apart named named' up
  · exact (apart named' named up).symm

theorem nodup_flatMap_preorder (each : ∀ child ∈ tree.childrenOf id,
    (tree.preorder tree.size child).Nodup) : (tree.below id).Nodup := by
  rw [below, List.nodup_flatMap]
  refine ⟨each, (mirrored.nodup id).imp_of_mem ?_⟩
  intro first second member member' different other listed listed'
  have valid := mirrored.closed.lt_size member
  have valid' := mirrored.closed.lt_size member'
  exact different (eq_of_chains uncircled (mirrored.mem_iff.1 member)
    (mirrored.mem_iff.1 member') ((mem_preorder_iff mirrored uncircled valid).1 listed)
    ((mem_preorder_iff mirrored uncircled valid').1 listed'))

theorem nodup_below (id : NodeId) : (tree.below id).Nodup := by
  have acyclic := mirrored.acyclic uncircled
  have each : ∀ id < tree.size, (tree.preorder tree.size id).Nodup := by
    intro id valid
    refine acyclic.induction mirrored.closed
      (motive := fun id => (tree.preorder tree.size id).Nodup) ?_ valid
    intro id valid deeper
    rw [preorder_size mirrored.closed acyclic valid, List.nodup_cons, mem_below_iff mirrored uncircled]
    exact ⟨uncircled id, nodup_flatMap_preorder mirrored uncircled deeper⟩
  exact nodup_flatMap_preorder mirrored uncircled fun child member =>
    each child (mirrored.closed.lt_size member)

theorem length_below_le (id : NodeId) : (tree.below id).length ≤ tree.size := by
  have within : tree.below id ⊆ List.range tree.size := by
    intro other member
    obtain ⟨parent, named, -⟩ :=
      Relation.TransGen.head'_iff.1 ((mem_below_iff mirrored uncircled).1 member)
    exact List.mem_range.2 named.lt_size
  have shorter := ((nodup_below mirrored uncircled id).subperm within).length_le
  rwa [List.length_range] at shorter

theorem descendants_eq_below (valid : id < tree.size) :
    tree.descendants id = .ok (tree.below id) := by
  have walked := walked_below mirrored.closed (mirrored.acyclic uncircled) id
  rw [descendants, children_eq_ok valid]
  exact congrArg Except.ok (walked.walk_eq (length_below_le mirrored uncircled id))

end

/-! Operations one after another. -/

inductive Operation where
  | append (parent : NodeId) (tag : String)
  | appendText (parent : NodeId) (tag : String) (text : Text)
  | detach (id : NodeId)
  | reattach (parent id : NodeId)
  deriving DecidableEq, Repr

namespace Operation

def apply (tree : Tree) : Operation → Except Fault Tree
  | append parent tag => return (← tree.append parent tag).2
  | appendText parent tag text => return (← tree.appendText parent tag text).2
  | detach id => tree.detach id
  | reattach parent id => tree.reattach parent id

def ids : Operation → List NodeId
  | append parent _ | appendText parent _ _ => [parent]
  | detach id => [id]
  | reattach parent id => [parent, id]

def InRange (tree : Tree) (operation : Operation) : Prop :=
  ∀ id ∈ operation.ids, id < tree.size

def Tame (tree : Tree) : Operation → Prop
  | reattach parent id => ¬Relation.ReflTransGen tree.ChildOf parent id
  | _ => True

end Operation

def applyAll (tree : Tree) (operations : List Operation) : Except Fault Tree :=
  operations.foldlM Operation.apply tree

/-- Every operation is as asked of it in the tree that the operations before it have made. -/
def Throughout (asked : Tree → Operation → Prop) : Tree → List Operation → Prop
  | _, [] => True
  | tree, operation :: rest => asked tree operation ∧
      ∀ after, operation.apply tree = .ok after → Throughout asked after rest

theorem throughout_cons {asked : Tree → Operation → Prop} {tree after : Tree} {operation : Operation}
    {rest : List Operation} (here : asked tree operation) (made : operation.apply tree = .ok after)
    (later : Throughout asked after rest) : Throughout asked tree (operation :: rest) := by
  refine ⟨here, fun after' made' => ?_⟩
  cases made.symm.trans made'
  exact later

theorem Mirrored.exists_apply (mirrored : tree.Mirrored) {operation : Operation}
    (inRange : operation.InRange tree) : ∃ after, operation.apply tree = .ok after ∧
      after.Mirrored ∧ (tree.Uncircled → operation.Tame tree → after.Uncircled) := by
  -- A new element is no parent yet.
  have grows {parent : NodeId} (element : Element) (valid : parent < tree.size)
      (leaf : element.children = []) : ∃ after, tree.attach parent element = .ok (tree.size, after) ∧
        after.Mirrored ∧ (tree.Uncircled → after.Uncircled) := by
    obtain ⟨after, made, mirrored', parents⟩ := mirrored.exists_attach valid leaf
    refine ⟨after, made, mirrored', fun uncircled => uncircled.moved parents fun chain => ?_⟩
    rcases (Relation.ReflTransGen.cases_tail_iff ..).1 chain with same | ⟨last, -, named⟩
    · exact Nat.ne_of_lt valid same.symm
    · exact Nat.lt_irrefl _ (mirrored.parent_lt named)
  cases operation with
  | append parent tag =>
    obtain ⟨after, made, mirrored', uncircled'⟩ :=
      grows { tag } (inRange parent (by simp [Operation.ids])) rfl
    refine ⟨after, ?_, mirrored', fun uncircled _ => uncircled' uncircled⟩
    simp only [Operation.apply, Tree.append, made, bind, Except.bind]
    rfl
  | appendText parent tag text =>
    obtain ⟨after, made, mirrored', uncircled'⟩ :=
      grows { tag, text := some text } (inRange parent (by simp [Operation.ids])) rfl
    refine ⟨after, ?_, mirrored', fun uncircled _ => uncircled' uncircled⟩
    simp only [Operation.apply, Tree.appendText, made, bind, Except.bind]
    rfl
  | detach id =>
    obtain ⟨after, made, mirrored', -, parents⟩ :=
      mirrored.exists_detach (inRange id (by simp [Operation.ids]))
    exact ⟨after, made, mirrored', fun uncircled _ => uncircled.orphaned parents⟩
  | reattach parent id =>
    obtain ⟨after, made, mirrored', -, parents⟩ :=
      mirrored.exists_reattach (inRange id (by simp [Operation.ids]))
        (inRange parent (by simp [Operation.ids]))
    exact ⟨after, made, mirrored', fun uncircled tame => uncircled.moved parents tame⟩

theorem Mirrored.exists_applyAll (mirrored : tree.Mirrored) {operations : List Operation}
    (inRange : Throughout (fun tree operation => operation.InRange tree) tree operations) :
    ∃ after, tree.applyAll operations = .ok after ∧ after.Mirrored ∧
      (tree.Uncircled → Throughout (fun tree operation => operation.Tame tree) tree operations →
        after.Uncircled) := by
  induction operations generalizing tree with
  | nil => exact ⟨tree, rfl, mirrored, fun uncircled _ => uncircled⟩
  | cons operation rest ih =>
    obtain ⟨middle, made, mirrored', uncircled'⟩ := mirrored.exists_apply inRange.1
    obtain ⟨after, made', mirrored'', uncircled''⟩ := ih mirrored' (inRange.2 middle made)
    refine ⟨after, ?_, mirrored'', fun uncircled tame => ?_⟩
    · rw [applyAll, List.foldlM_cons, made]
      exact made'
    · exact uncircled'' (uncircled' uncircled tame.1) (tame.2 middle made)

/-- Operations on elements of the tree succeed, and leave children and parents naming each other. When
none of them moved an element to itself or to an element below it, no chain of parents is a circle, and
the elements below an element are listed by a walk that ends, each child in front of the elements below
it: the elements from which a chain of parents leads to the element, each of them once. -/
theorem applyAll_integrity {operations : List Operation}
    (inRange : Throughout (fun tree operation => operation.InRange tree) .empty operations) :
    ∃ tree, Tree.empty.applyAll operations = .ok tree ∧
      (∀ parent child, child ∈ tree.childrenOf parent ↔ tree.parentOf? child = some parent) ∧
      (∀ id, (tree.childrenOf id).Nodup) ∧
      (Throughout (fun tree operation => operation.Tame tree) .empty operations →
        (∀ id, ¬Relation.TransGen tree.ChildOf id id) ∧
        ∀ id < tree.size, tree.Walked (tree.childrenOf id) (tree.below id) ∧
          tree.descendants id = .ok (tree.below id) ∧
          tree.below id = (tree.childrenOf id).flatMap (fun child => child :: tree.below child) ∧
          (tree.below id).Nodup ∧
          ∀ other, other ∈ tree.below id ↔ Relation.TransGen tree.ChildOf other id) := by
  obtain ⟨tree, made, mirrored, uncircled⟩ := mirrored_empty.exists_applyAll inRange
  refine ⟨tree, made, fun _ _ => mirrored.mem_iff, mirrored.nodup, fun tame => ?_⟩
  have uncircled := uncircled uncircled_empty tame
  have acyclic := mirrored.acyclic uncircled
  refine ⟨uncircled, fun id valid => ?_⟩
  exact ⟨walked_below mirrored.closed acyclic id, descendants_eq_below mirrored uncircled valid,
    below_eq mirrored.closed acyclic, nodup_below mirrored uncircled id,
    fun _ => mem_below_iff mirrored uncircled⟩

theorem applyAll_integrity_moved :
    let operations : List Operation := [.append 0 "p", .append 0 "div", .reattach 2 1]
    Throughout (fun tree operation => operation.InRange tree) .empty operations ∧
      Throughout (fun tree operation => operation.Tame tree) .empty operations ∧
      ∃ tree, Tree.empty.applyAll operations = .ok tree ∧ (tree.childrenOf 2).Nodup ∧
        tree.descendants 0 = .ok [2, 1] := by
  intro operations
  have inRange : Throughout (fun tree operation => operation.InRange tree) .empty operations := by
    refine throughout_cons ?_ rfl (throughout_cons ?_ rfl (throughout_cons ?_ rfl trivial)) <;>
      simp [Operation.InRange, Operation.ids, Tree.size, Tree.empty]
  have tame : Throughout (fun tree operation => operation.Tame tree) .empty operations := by
    refine throughout_cons trivial rfl (throughout_cons trivial rfl (throughout_cons ?_ rfl trivial))
    intro chain
    rcases Relation.ReflTransGen.cases_head_iff.1 chain with same | ⟨parent, step, rest⟩
    · cases same
    · cases step
      rcases Relation.ReflTransGen.cases_head_iff.1 rest with same | ⟨parent, step, -⟩
      · cases same
      · cases step
  obtain ⟨tree, made, -, nodup, tamed⟩ := applyAll_integrity inRange
  cases made
  exact ⟨inRange, tame, _, rfl, nodup 2, ((tamed tame).2 0 (by decide)).2.1⟩

end Tracemark.Tree
