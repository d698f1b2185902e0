import Tracemark.Proofs.Tree.Growth
import Tracemark.Proofs.Tree.Matching
import Tracemark.Tree.Branch

/-! The branches of an ordered tree.

Children are younger than their parents, so a chain of them ends within the size of the tree and no
branch is cut off. A branch is read off the elements at and below its top alone. What changes below
one child of an element therefore changes one branch of that element, and the others stay.
-/

set_option autoImplicit false

namespace Tracemark

namespace Branch

section

variable (tag : String) (text : Option Text) (attributes : Attributes) (children : List Branch)

@[simp] theorem tag_node : (node tag text attributes children).tag = tag := rfl

@[simp] theorem text_node : (node tag text attributes children).text = text := rfl

@[simp] theorem children_node : (node tag text attributes children).children = children := rfl

end

mutual

def all : Branch → List Branch
  | node tag text attributes children => node tag text attributes children :: allOf children

def allOf : List Branch → List Branch
  | [] => []
  | first :: rest => first.all ++ allOf rest

end

@[simp] theorem allOf_nil : allOf [] = [] := rfl

@[simp] theorem allOf_cons (first : Branch) (rest : List Branch) :
    allOf (first :: rest) = first.all ++ allOf rest :=
  rfl

@[simp] theorem all_node (tag : String) (text : Option Text) (attributes : Attributes)
    (children : List Branch) : (node tag text attributes children).all =
      node tag text attributes children :: allOf children :=
  rfl

@[simp] theorem allOf_append (first second : List Branch) :
    allOf (first ++ second) = allOf first ++ allOf second := by
  induction first with
  | nil => rfl
  | cons branch rest ih => rw [List.cons_append, allOf_cons, allOf_cons, ih, List.append_assoc]

end Branch

namespace Tree

variable {tree other before after : Tree} {id parent child last : NodeId} {element : Element}
  {ids front back : List NodeId}

def shown (tree : Tree) (ids : List NodeId) : List Branch :=
  ids.filterMap (tree.branch? tree.size)

@[simp] theorem shown_nil (tree : Tree) : tree.shown [] = [] := rfl

theorem shown_append (tree : Tree) (first second : List NodeId) :
    tree.shown (first ++ second) = tree.shown first ++ tree.shown second :=
  List.filterMap_append

theorem branch?_zero : tree.branch? 0 id =
    (tree.get? id).map fun element => .node element.tag element.text element.attributes [] := by
  rw [branch?]
  cases tree.get? id <;> rfl

theorem branch?_succ (depth : Nat) : tree.branch? (depth + 1) id =
    (tree.get? id).map fun element =>
      .node element.tag element.text element.attributes
        (element.children.filterMap (tree.branch? depth)) := by
  rw [branch?]
  cases tree.get? id <;> rfl

theorem branch?_of_outside (depth : Nat) (outside : tree.size ≤ id) :
    tree.branch? depth id = none := by
  cases depth with
  | zero => rw [branch?_zero, get?_eq_none outside, Option.map_none]
  | succ depth => rw [branch?_succ, get?_eq_none outside, Option.map_none]

theorem branch?_congr (depth : Nat)
    (same : ∀ below, tree.Under id below → other.get? below = tree.get? below) :
    other.branch? depth id = tree.branch? depth id := by
  induction depth generalizing id with
  | zero => rw [branch?_zero, branch?_zero, same id .here]
  | succ depth ih =>
    rw [branch?_succ, branch?_succ, same id .here]
    cases found : tree.get? id with
    | none => rfl
    | some element =>
      rw [Option.map_some, Option.map_some]
      congr 2
      apply List.filterMap_congr
      intro child member
      rw [← childrenOf_eq found] at member
      exact ih fun below under => same below ((Under.here.deeper member).trans under)

theorem Ordered.reaches_child (ordered : tree.Ordered) (member : child ∈ tree.childrenOf id)
    {depth : Nat} (enough : tree.size ≤ id + (depth + 1)) : tree.size ≤ child + depth := by
  have younger := Nat.add_le_add_right (ordered.lt_of_mem_childrenOf member) depth
  rw [Nat.add_comm depth 1, ← Nat.add_assoc] at enough
  exact Nat.le_trans enough younger

/-- No branch is cut off once the depth reaches the size of the tree. -/
theorem Ordered.branch?_depth (ordered : tree.Ordered) {depth depth' : Nat}
    (enough : tree.size ≤ id + depth) (enough' : tree.size ≤ id + depth') :
    tree.branch? depth id = tree.branch? depth' id := by
  induction depth generalizing id depth' with
  | zero =>
    rw [branch?_of_outside 0 (by exact enough), branch?_of_outside depth' (by exact enough)]
  | succ depth ih =>
    cases depth' with
    | zero =>
      rw [branch?_of_outside 0 (by exact enough'), branch?_of_outside (depth + 1) (by exact enough')]
    | succ depth' =>
      rw [branch?_succ, branch?_succ]
      cases found : tree.get? id with
      | none => rfl
      | some element =>
        rw [Option.map_some, Option.map_some]
        congr 2
        apply List.filterMap_congr
        intro child member
        rw [← childrenOf_eq found] at member
        exact ih (ordered.reaches_child member enough) (ordered.reaches_child member enough')

theorem branch?_size (found : tree.get? id = some element) :
    tree.branch? tree.size id =
      some (.node element.tag element.text element.attributes (tree.branches id)) := by
  obtain ⟨size, same⟩ := Nat.exists_eq_add_of_lt (lt_size_of_get? found)
  rw [branches, same, branch?_succ, found]
  rfl

theorem Ordered.branches_eq (ordered : tree.Ordered) (id : NodeId) :
    tree.branches id = tree.shown (tree.childrenOf id) := by
  rcases Nat.lt_or_ge id tree.size with inside | outside
  · obtain ⟨element, found⟩ := exists_get? inside
    obtain ⟨depth, same⟩ := Nat.exists_eq_add_of_lt inside
    rw [branches, shown, same, branch?_succ, found, ← same, childrenOf_eq found]
    apply List.filterMap_congr
    intro child member
    rw [← childrenOf_eq found] at member
    have enough : tree.size ≤ id + (id + depth + 1) := same ▸ Nat.le_add_left _ _
    exact ordered.branch?_depth (ordered.reaches_child member enough) (Nat.le_add_left _ _)
  · rw [branches, branch?_of_outside _ outside, childrenOf, get?_eq_none outside]
    rfl

theorem shown_congr (ordered : before.Ordered) (ordered' : after.Ordered)
    (same : ∀ id ∈ ids, ∀ below, before.Under id below → after.get? below = before.get? below) :
    after.shown ids = before.shown ids := by
  apply List.filterMap_congr
  intro id member
  -- Both are read to one depth that is enough for either tree.
  calc after.branch? after.size id
      = after.branch? (before.size + after.size) id := ordered'.branch?_depth (by omega) (by omega)
    _ = before.branch? (before.size + after.size) id := branch?_congr _ (same id member)
    _ = before.branch? before.size id := ordered.branch?_depth (by omega) (by omega)

theorem shown_singleton (found : tree.get? id = some element) : tree.shown [id] =
    [.node element.tag element.text element.attributes (tree.branches id)] := by
  rw [shown, List.filterMap_cons, branch?_size found]
  rfl

theorem length_shown (inside : ∀ id ∈ ids, id < tree.size) : (tree.shown ids).length = ids.length := by
  induction ids with
  | nil => rfl
  | cons id others ih =>
    obtain ⟨element, found⟩ := exists_get? (inside id List.mem_cons_self)
    have later := ih fun other member => inside other (List.mem_cons_of_mem _ member)
    rw [← List.singleton_append, shown_append, shown_singleton found, List.length_append,
      List.length_append, later]
    rfl

theorem Ordered.length_branches (ordered : tree.Ordered) (id : NodeId) :
    (tree.branches id).length = (tree.childrenOf id).length := by
  rw [ordered.branches_eq, length_shown fun _ member => ordered.child_lt_size member]

theorem Ordered.branches_of_childrenOf (ordered : tree.Ordered)
    (children : tree.childrenOf parent = front ++ child :: back)
    (found : tree.get? child = some element) : tree.branches parent =
      tree.shown front ++
        .node element.tag element.text element.attributes (tree.branches child) :: tree.shown back := by
  rw [ordered.branches_eq, children, ← List.singleton_append, shown_append, shown_append,
    shown_singleton found]
  rfl

theorem Linked.lt_size_of_under (linked : tree.Linked) (inside : id < tree.size)
    (under : tree.Under id child) : child < tree.size := by
  cases under with
  | here => exact inside
  | deeper _ member => exact linked.child_lt_size member

theorem branches_of_agree (ordered : before.Ordered) (ordered' : after.Ordered)
    (children : before.childrenOf parent = front ++ child :: back)
    (children' : after.childrenOf parent = front ++ child :: back)
    (found : after.get? child = some element)
    (same : ∀ id, id < before.size → id ≠ parent → ¬before.Under child id →
      after.get? id = before.get? id) :
    after.branches parent =
      before.shown front ++
        .node element.tag element.text element.attributes (after.branches child) ::
          before.shown back := by
  have member : child ∈ before.childrenOf parent := by simp [children]
  -- The other children have nothing of this child below them.
  have aside {ids : List NodeId} (listed : ∀ id ∈ ids, id ∈ before.childrenOf parent ∧ id ≠ child) :
      after.shown ids = before.shown ids := by
    apply shown_congr ordered ordered'
    intro id inside below under
    obtain ⟨sibling, different⟩ := listed id inside
    apply same below (ordered.lt_size_of_under (ordered.child_lt_size sibling) under)
    · rintro rfl
      have younger := ordered.lt_of_mem_childrenOf sibling
      exact absurd (ordered.le_of_under under) (Nat.not_le_of_lt younger)
    · exact fun under' => different (ordered.eq_of_under under under' sibling member)
  have distinct := ordered.nodup_childrenOf parent
  rw [children, List.nodup_append, List.nodup_cons] at distinct
  rw [ordered'.branches_of_childrenOf children' found, aside, aside]
  · intro id inside
    exact ⟨by simp [children, inside], fun same => distinct.2.1.1 (same ▸ inside)⟩
  · intro id inside
    exact ⟨by simp [children, inside], distinct.2.2 id inside child List.mem_cons_self⟩

/-! Branches after the changes that handlers make. -/

theorem Ordered.shown_attached (ordered : before.Ordered) (valid : parent < before.size)
    (leaf : element.children = []) : (before.attached parent element).shown (before.childrenOf parent) =
      before.branches parent := by
  rw [ordered.branches_eq]
  apply shown_congr ordered (ordered.attached valid leaf)
  intro id member below under
  have younger := Nat.lt_of_lt_of_le (ordered.lt_of_mem_childrenOf member) (ordered.le_of_under under)
  apply get?_attached_of_ne valid
  · exact Nat.ne_of_lt (ordered.lt_size_of_under (ordered.child_lt_size member) under)
  · exact Nat.ne_of_gt younger

theorem Ordered.branches_attached_self (ordered : before.Ordered) (valid : parent < before.size)
    (leaf : element.children = []) : (before.attached parent element).branches before.size = [] := by
  rw [(ordered.attached valid leaf).branches_eq, childrenOf_eq (get?_attached_self valid), leaf]
  rfl

theorem Ordered.branches_attached (ordered : before.Ordered) (valid : parent < before.size)
    (leaf : element.children = []) : (before.attached parent element).branches parent =
      before.branches parent ++ [.node element.tag element.text element.attributes []] := by
  rw [(ordered.attached valid leaf).branches_eq, childrenOf_attached valid, shown_append,
    ordered.shown_attached valid leaf, shown_singleton (get?_attached_self valid),
    ordered.branches_attached_self valid leaf]

section

variable {change : Element → Element}

theorem Ordered.branches_modify (ordered : tree.Ordered) (keeps : KeepsLinks change) :
    (tree.modify id change).branches id = tree.branches id := by
  have ordered' : (tree.modify id change).Ordered := ordered.modify keeps
  rw [ordered'.branches_eq, childrenOf_modify keeps.children, ordered.branches_eq]
  apply shown_congr ordered ordered'
  intro child member below under
  have younger := Nat.lt_of_lt_of_le (ordered.lt_of_mem_childrenOf member) (ordered.le_of_under under)
  exact get?_modify_of_ne (Nat.ne_of_gt younger)

theorem Ordered.branches_modify_child (ordered : tree.Ordered) (keeps : KeepsLinks change)
    (children : tree.childrenOf parent = front ++ child :: back)
    (found : tree.get? child = some element) : (tree.modify child change).branches parent =
      tree.shown front ++
        .node (change element).tag (change element).text (change element).attributes
          (tree.branches child) :: tree.shown back := by
  have children' := children
  rw [← childrenOf_modify keeps.children] at children'
  have found' : (tree.modify child change).get? child = some (change element) := by
    rw [get?_modify_self, found, Option.map_some]
  rw [branches_of_agree ordered (ordered.modify keeps) children children' found',
    ordered.branches_modify keeps]
  exact fun id _ _ outside => get?_modify_of_ne fun same => outside (same ▸ .here)

theorem Ordered.branches_modify_grandchild (ordered : tree.Ordered) (keeps : KeepsLinks change)
    {outer inner : Element} {others : List NodeId}
    (children : tree.childrenOf parent = front ++ [child]) (found : tree.get? child = some outer)
    (inside : tree.childrenOf child = id :: others) (found' : tree.get? id = some inner) :
    (tree.modify id change).branches parent =
      tree.shown front ++
        [.node outer.tag outer.text outer.attributes
          (.node (change inner).tag (change inner).text (change inner).attributes
            (tree.branches id) :: tree.shown others)] := by
  have member : id ∈ tree.childrenOf child := inside ▸ List.mem_cons_self
  have children' := children
  rw [← childrenOf_modify keeps.children] at children'
  have kept : (tree.modify id change).get? child = some outer := by
    rw [get?_modify_of_ne (Nat.ne_of_lt (ordered.lt_of_mem_childrenOf member)), found]
  have first : tree.childrenOf child = [] ++ id :: others := inside
  have changed := ordered.branches_modify_child keeps first found'
  rw [branches_of_agree ordered (ordered.modify keeps) children children' kept, changed]
  · rfl
  · exact fun other _ _ outside =>
      get?_modify_of_ne fun same => outside (same ▸ Under.here.deeper member)

end

namespace Grows

theorem get?_eq (grown : Grows parent before after) (old : id < before.size)
    (apart : id ≠ parent) (outside : ¬before.UnderLast parent id) :
    after.get? id = before.get? id := by
  obtain ⟨element, found⟩ := exists_get? old
  obtain ⟨element', found', tag, above, text⟩ := grown.kept found
  obtain ⟨fresh, children, -, place⟩ := grown.children old
  have none : fresh = [] := by
    by_contra some_child
    rcases place some_child with same | under
    · exact apart same
    · exact outside under
  rw [childrenOf_eq found, childrenOf_eq found', none, List.append_nil] at children
  rw [found, found', Element.ext tag (by_contra fun changed => outside (text changed))
    (grown.attributes found found') children above]

-- An element stands under none of its own descendants.
theorem not_underLast_self (ordered : before.Ordered) : ¬before.UnderLast parent parent := by
  rintro ⟨deeper, atEnd, under⟩
  have younger := ordered.lt_of_mem_childrenOf (List.mem_of_getLast? atEnd)
  exact absurd (ordered.le_of_under under) (Nat.not_le_of_lt younger)

theorem exists_get?_top (grown : Grows parent before after) (ordered : before.Ordered)
    (found : before.get? parent = some element) :
    ∃ element', after.get? parent = some element' ∧ element'.tag = element.tag ∧
      element'.text = element.text ∧ element'.attributes = element.attributes := by
  obtain ⟨element', found', tag, -, text⟩ := grown.kept found
  refine ⟨element', found', tag, ?_, grown.attributes found found'⟩
  exact by_contra fun changed => not_underLast_self ordered (text changed)

theorem childrenOf_above (grown : Grows last before after) (ordered : before.Ordered)
    (member : last ∈ before.childrenOf parent) : after.childrenOf parent = before.childrenOf parent := by
  have younger := ordered.lt_of_mem_childrenOf member
  obtain ⟨fresh, same, -, place⟩ :=
    grown.children (Nat.lt_trans younger (ordered.child_lt_size member))
  have none : fresh = [] := by
    by_contra some_child
    rcases place some_child with rfl | ⟨deeper, atEnd, under⟩
    · exact Nat.lt_irrefl _ younger
    · have younger' := ordered.lt_of_mem_childrenOf (List.mem_of_getLast? atEnd)
      exact absurd (ordered.le_of_under under) (Nat.not_le_of_lt (Nat.lt_trans younger younger'))
  rw [same, none, List.append_nil]

/-- Parsing into the last child changes the last branch. -/
theorem branches_inside (grown : Grows last before after) (ordered : before.Ordered)
    (children : before.childrenOf parent = front ++ [last])
    (found : before.get? last = some element) : after.branches parent =
      before.shown front ++
        [.node element.tag element.text element.attributes (after.branches last)] := by
  obtain ⟨element', found', tag, text, attributes⟩ := grown.exists_get?_top ordered found
  have member : last ∈ before.childrenOf parent := by simp [children]
  have children' := (grown.childrenOf_above ordered member).trans children
  have agreed := branches_of_agree ordered grown.ordered children children' found'
    fun id old _ separate => grown.get?_eq old (fun same => separate (same ▸ .here))
      fun ⟨_, atEnd, under⟩ =>
        separate ((Under.here.deeper (List.mem_of_getLast? atEnd)).trans under)
  rwa [tag, text, attributes] at agreed

end Grows

end Tree

end Tracemark
