import Tracemark.Proofs.Offsets.Stamping

/-! The marks of a tree while blocks go through the layer.

Only children of the root bear marks. What the grammar makes of a block bears none and leaves those
that are there, so the marks change by what is recorded of an origin and by nothing else. A reader of
the finished tree meets the marks in the order of the children of the root.
-/

set_option autoImplicit false

namespace Tracemark

namespace OrderedMap

variable {κ β : Type} [DecidableEq κ]

theorem get?_eq_none {map : OrderedMap κ β} {key : κ} (outside : key ∉ map.keys) :
    map.get? key = none := by
  have missing : map.entries.find? (·.1 = key) = none := by
    rw [List.find?_eq_none]
    intro entry member same
    exact outside (List.mem_map.2 ⟨entry, member, of_decide_eq_true same⟩)
  rw [get?, missing]
  rfl

end OrderedMap

namespace Tree

variable {tree : Tree} {top : NodeId}

theorem filter_walk_sublist (ordered : tree.Ordered) (fuel : Nat) {deep shallow : List NodeId}
    (below : ∀ id ∈ deep, top < id ∧ id ∉ tree.childrenOf top)
    (children : shallow ⊆ tree.childrenOf top) :
    ((tree.walk fuel (deep ++ shallow)).filter (· ∈ tree.childrenOf top)).Sublist shallow := by
  -- What stands below an element other than the top is no child of the top.
  have deeper {id : NodeId} (lower : top < id) :
      ∀ child ∈ tree.childrenOf id, top < child ∧ child ∉ tree.childrenOf top := by
    intro child member
    refine ⟨Nat.lt_trans lower (ordered.lt_of_mem_childrenOf member), fun direct => ?_⟩
    exact Nat.ne_of_gt lower (ordered.eq_of_mem_childrenOf member direct)
  -- The elements that are still to be met are some below the children, and then children.
  induction fuel generalizing deep shallow with
  | zero => exact List.nil_sublist _
  | succ fuel ih =>
    match deep with
    | id :: rest =>
      rw [List.forall_mem_cons] at below
      have lower : ∀ child ∈ tree.childrenOf id ++ rest, top < child ∧ child ∉ tree.childrenOf top := by
        intro child member
        rcases List.mem_append.1 member with here | there
        · exact deeper below.1.1 child here
        · exact below.2 child there
      have later := ih lower children
      rw [List.append_assoc] at later
      rw [List.cons_append, walk, List.filter_cons_of_neg (by simpa using below.1.2)]
      exact later
    | [] =>
      match shallow with
      | [] => exact List.nil_sublist _
      | id :: rest =>
        rw [List.cons_subset] at children
        have lower := ordered.lt_of_mem_childrenOf children.1
        rw [List.nil_append, walk, List.filter_cons_of_pos (by simpa using children.1)]
        exact (ih (deeper lower) children.2).cons_cons id

end Tree

namespace Offsets

open Tracemark.Tree (Grows)

variable {lead : String} {tree before : Tree} {marks : NodeId → Option Mark}
  {origin : Origin} {fresh : List NodeId}

structure Noted (lead : String) (tree : Tree) (marks : NodeId → Option Mark) : Prop where
  ordered : tree.Ordered
  marked : Marked (.ofLead lead) tree marks
  top : ∀ node mark, marks node = some mark → node ∈ tree.childrenOf Tree.root

theorem bears_none {names : AttributeNames} {element : Element}
    (plain : ∀ name ∈ names.toList, element.attributes.get? name = none) :
    Bears names element none := by
  constructor <;> exact plain _ (by simp [AttributeNames.toList])

theorem noted_empty (lead : String) : Noted lead Tree.empty fun _ => none where
  ordered := Tree.ordered_empty
  marked := by
    intro node element found
    have only : element = { tag := "div" } := by
      cases node with
      | zero => exact (Option.some.inj found).symm
      | succ id => cases found
    subst only
    exact bears_none fun _ _ => rfl
  top := by
    intro node mark found
    cases found

theorem Noted.unmarked (noted : Noted lead before marks) {node : NodeId} (new : before.size ≤ node) :
    marks node = none := by
  cases found : marks node with
  | none => rfl
  | some mark =>
    have child := noted.top node mark found
    exact absurd (noted.ordered.child_lt_size child) (Nat.not_lt_of_le new)

theorem bare_of_new (grows : Grows Tree.root before tree) {node : NodeId} {element : Element}
    (new : before.size ≤ node) (found : tree.get? node = some element) :
    ∀ name ∈ (AttributeNames.ofLead lead).toList, element.attributes.get? name = none := by
  intro name member
  apply OrderedMap.get?_eq_none
  intro key
  rw [List.mem_singleton.1 (grows.plain new found key)] at member
  exact class_not_mem_ofLead lead member

theorem Noted.grown (noted : Noted lead before marks) (grows : Grows Tree.root before tree) :
    Noted lead tree marks where
  ordered := grows.ordered
  marked := by
    intro node element found
    rcases Nat.lt_or_ge node before.size with old | new
    · obtain ⟨held, there⟩ := Tree.exists_get? old
      obtain ⟨start, stop, startAccurate, endAccurate⟩ := noted.marked node held there
      have same := grows.attributes there found
      constructor <;> rwa [same]
    · rw [noted.unmarked new]
      exact bears_none (bare_of_new grows new found)
  top := by
    intro node mark found
    obtain ⟨fresh, same, -⟩ := grows.children noted.ordered.root_lt_size
    rw [same]
    exact List.mem_append_left _ (noted.top node mark found)

theorem Noted.written (noted : Noted lead before marks) (grows : Grows Tree.root before tree)
    (children : tree.childrenOf Tree.root = before.childrenOf Tree.root ++ fresh)
    (new : ∀ node ∈ fresh, before.size ≤ node) (document : Option Text) (origin : Origin) :
    Noted lead (Stamper.written ⟨.ofLead lead, document⟩ tree Tree.root origin fresh)
      (recorded document.isSome origin (tree.childrenOf Tree.root).getLast? fresh marks) := by
  have kept := noted.grown grows
  have distinct := grows.ordered.nodup_childrenOf Tree.root
  rw [children] at distinct
  refine ⟨?_, marked_written kept.marked (List.nodup_append.1 distinct).2.1
    fun node member => noted.unmarked (new node member), fun node mark found => ?_⟩
  · have extended : Tree.Extends Tree.root before
        (Stamper.written ⟨.ofLead lead, document⟩ tree Tree.root origin fresh) :=
      Stamper.extends_written grows.toExtends
    exact extended.ordered
  · rw [Stamper.childrenOf_written]
    cases fresh with
    | nil =>
      cases atEnd : (tree.childrenOf Tree.root).getLast? with
      | none =>
        rw [atEnd] at found
        exact kept.top node mark found
      | some last =>
        by_cases same : node = last
        · exact same ▸ List.mem_of_getLast? atEnd
        · rw [atEnd] at found
          simp only [recorded, Function.update_of_ne same] at found
          exact kept.top node mark found
    | cons first rest =>
      by_cases member : node ∈ first :: rest
      · rw [children]
        exact List.mem_append_right _ member
      · simp only [recorded, member, if_false] at found
        exact kept.top node mark found

/-! Reading marks back. -/

theorem NodeSpan.eq_of_bears {names : AttributeNames} {element : Element} {mark : Option Mark}
    (bears : Bears names element mark) {node : NodeId} {span : NodeSpan}
    (read : NodeSpan.ofElement? names node element = some span) :
    ∃ held, mark = some held ∧ span =
      ⟨node, element.tag, held.start, held.stop, held.startAccurate, held.endAccurate⟩ := by
  obtain ⟨start, readStart, read⟩ := Option.bind_eq_some_iff.1 read
  obtain ⟨stop, readStop, read⟩ := Option.bind_eq_some_iff.1 read
  rw [bears.start] at readStart
  rw [bears.stop] at readStop
  cases mark with
  | none => cases readStart
  | some held =>
    have same := Text.eq_of_numeral?_ofNat readStart
    have same' := Text.eq_of_numeral?_ofNat readStop
    have flags := Option.some.inj read
    rw [bears.startAccurate, bears.endAccurate] at flags
    refine ⟨held, rfl, ?_⟩
    rw [← flags, same, same', Option.bind_some, Option.bind_some, Text.bind_bool?_ofBool,
      Text.bind_bool?_ofBool]

/-- The spans of a tree are those of marks, in the order of the children of the root. -/
theorem Noted.collectSpans_eq_ok (noted : Noted lead tree marks) :
    ∃ spans, collectSpans tree lead = .ok spans ∧
      (spans.map (·.node)).Sublist (tree.childrenOf Tree.root) ∧
      ∀ span ∈ spans, ∃ mark, marks span.node = some mark ∧ span.start = mark.start ∧
        span.stop = mark.stop ∧ span.startAccurate = mark.startAccurate ∧
        span.endAccurate = mark.endAccurate := by
  let read (node : NodeId) : Option NodeSpan :=
    (tree.get? node).bind (NodeSpan.ofElement? (.ofLead lead) node)
  let walked := tree.walk tree.size (tree.childrenOf Tree.root)
  have marked {node : NodeId} {span : NodeSpan} (found : read node = some span) :
      span.node = node ∧ ∃ mark, marks node = some mark ∧ span.start = mark.start ∧
        span.stop = mark.stop ∧ span.startAccurate = mark.startAccurate ∧
        span.endAccurate = mark.endAccurate := by
    obtain ⟨element, there, read⟩ := Option.bind_eq_some_iff.1 found
    obtain ⟨held, same, rfl⟩ := NodeSpan.eq_of_bears (noted.marked node element there) read
    exact ⟨rfl, held, same, rfl, rfl, rfl, rfl⟩
  refine ⟨walked.filterMap read, ?_, ?_, ?_⟩
  · rw [collectSpans, Tree.descendants, Tree.children_eq_ok noted.ordered.root_lt_size]
    rfl
  · have nodes : (walked.filterMap read).map (·.node) = walked.filter fun node => (read node).isSome := by
      induction walked with
      | nil => rfl
      | cons node rest ih =>
        cases found : read node with
        | none => simp [found, ih]
        | some span => simp [found, ih, (marked found).1]
    have none : ∀ id ∈ ([] : List NodeId), Tree.root < id ∧ id ∉ tree.childrenOf Tree.root := by simp
    have order := Tree.filter_walk_sublist noted.ordered tree.size none
      (List.Subset.refl (tree.childrenOf Tree.root))
    rw [nodes]
    apply List.Sublist.trans _ order
    apply List.monotone_filter_right walked
    intro node found
    obtain ⟨span, there⟩ := Option.isSome_iff_exists.1 found
    obtain ⟨-, mark, there, -⟩ := marked there
    exact decide_eq_true (noted.top node mark there)
  · intro span member
    obtain ⟨node, -, found⟩ := List.mem_filterMap.1 member
    obtain ⟨rfl, facts⟩ := marked found
    exact facts

end Offsets

end Tracemark
