import Tracemark.Proofs.Tree.Links

/-! How parsing under an element changes a tree.

Parsing keeps the tags, parents and attributes of the elements that are there, and new children come
behind the old ones. Of the old elements it changes none but the one it parses under, whose text it
keeps, and those at and below the last child of that element. New elements carry no attribute but the
class of a code element.
-/

set_option autoImplicit false

namespace Tracemark.Tree

variable {tree before middle after : Tree} {id other parent child top : NodeId}

/-- The elements at and below `top`. -/
inductive Under (tree : Tree) (top : NodeId) : NodeId → Prop
  | here : tree.Under top top
  | deeper {id child : NodeId} :
    tree.Under top id → child ∈ tree.childrenOf id → tree.Under top child

def UnderLast (tree : Tree) (parent id : NodeId) : Prop :=
  ∃ last, (tree.childrenOf parent).getLast? = some last ∧ tree.Under last id

theorem Under.trans (first : tree.Under top id) (second : tree.Under id other) :
    tree.Under top other := by
  induction second with
  | here => exact first
  | deeper _ member ih => exact ih.deeper member

theorem Ordered.le_of_under (ordered : tree.Ordered) (under : tree.Under top id) : top ≤ id := by
  induction under with
  | here => exact Nat.le_refl _
  | deeper _ member ih => exact Nat.le_trans ih (Nat.le_of_lt (ordered.lt_of_mem_childrenOf member))

theorem Ordered.eq_of_under (ordered : tree.Ordered) (under : tree.Under id child)
    (under' : tree.Under other child) (member : id ∈ tree.childrenOf top)
    (member' : other ∈ tree.childrenOf top) : id = other := by
  -- A child of the top has nothing of the top's other children above it.
  have apart {id other : NodeId} (member : id ∈ tree.childrenOf top)
      (member' : other ∈ tree.childrenOf top) (under : tree.Under other id) : id = other := by
    cases under with
    | here => rfl
    | deeper above child =>
      cases ordered.eq_of_mem_childrenOf child member
      exact absurd (ordered.le_of_under above) (Nat.not_le_of_lt (ordered.lt_of_mem_childrenOf member'))
  induction under with
  | here => exact apart member member' under'
  | deeper above inside ih =>
    cases under' with
    | here => exact (apart member' member (above.deeper inside)).symm
    | deeper above' inside' =>
      cases ordered.eq_of_mem_childrenOf inside inside'
      exact ih above'

/-- The content of a tree after something was parsed under `parent`. -/
structure Extends (parent : NodeId) (before after : Tree) : Prop where
  ordered : after.Ordered
  size_le : before.size ≤ after.size
  children : ∀ {id}, id < before.size →
    ∃ fresh, after.childrenOf id = before.childrenOf id ++ fresh ∧
      (∀ child ∈ fresh, before.size ≤ child) ∧
      (fresh ≠ [] → id = parent ∨ before.UnderLast parent id)
  kept : ∀ {id old}, before.get? id = some old →
    ∃ new, after.get? id = some new ∧ new.tag = old.tag ∧ new.parent = old.parent ∧
      (new.text ≠ old.text → before.UnderLast parent id)

structure Grows (parent : NodeId) (before after : Tree) : Prop
    extends Extends parent before after where
  attributes : ∀ {id old new}, before.get? id = some old → after.get? id = some new →
    new.attributes = old.attributes
  plain : ∀ {id new}, before.size ≤ id → after.get? id = some new →
    new.attributes.keys ⊆ ["class"]

theorem get?_eq_none (outside : tree.size ≤ id) : tree.get? id = none :=
  List.getElem?_eq_none outside

namespace Extends

theorem lt_size (extended : Extends parent before after) (valid : id < before.size) :
    id < after.size :=
  Nat.lt_of_lt_of_le valid extended.size_le

theorem refl (ordered : before.Ordered) : Extends parent before before where
  ordered := ordered
  size_le := Nat.le_refl _
  children := fun _ => ⟨[], by simp⟩
  kept := fun found => ⟨_, found, rfl, rfl, fun changed => absurd rfl changed⟩

theorem under_old (extended : Extends parent before after) (under : after.Under top id)
    (old : id < before.size) : before.Under top id := by
  induction under with
  | here => exact .here
  | @deeper above child _ member ih =>
    have earlier : above < before.size :=
      Nat.lt_trans (extended.ordered.lt_of_mem_childrenOf member) old
    obtain ⟨fresh, same, new, -⟩ := extended.children earlier
    rw [same, List.mem_append] at member
    rcases member with kept | added
    · exact (ih earlier).deeper kept
    · exact absurd (new child added) (Nat.not_le_of_lt old)

theorem underLast_old (extended : Extends parent before after) (valid : parent < before.size)
    (under : after.UnderLast parent id) (old : id < before.size) :
    before.UnderLast parent id := by
  obtain ⟨last, atEnd, under⟩ := under
  have earlier : last < before.size :=
    Nat.lt_of_le_of_lt (extended.ordered.le_of_under under) old
  obtain ⟨fresh, same, new, -⟩ := extended.children valid
  -- New children come last, so an old last child is the one there was.
  rw [same] at atEnd
  rcases List.eq_nil_or_concat' fresh with none | ⟨others, added, rfl⟩
  · rw [none, List.append_nil] at atEnd
    exact ⟨last, atEnd, extended.under_old under old⟩
  · rw [← List.append_assoc, List.getLast?_concat] at atEnd
    cases atEnd
    exact absurd (new last (by simp)) (Nat.not_le_of_lt earlier)

/-- A new element below an old one stands below an old element that got a new child. -/
theorem exists_above_new (extended : Extends parent before after) (ordered : before.Ordered)
    (under : after.Under top id) (old : top < before.size) (new : before.size ≤ id) :
    ∃ above, before.Under top above ∧ (above = parent ∨ before.UnderLast parent above) := by
  induction under with
  | here => exact absurd old (Nat.not_lt_of_le new)
  | @deeper above child under member ih =>
    rcases Nat.lt_or_ge above before.size with earlier | later
    · obtain ⟨fresh, same, -, place⟩ := extended.children earlier
      refine ⟨above, extended.under_old under earlier, place ?_⟩
      rintro rfl
      rw [same, List.append_nil] at member
      exact absurd (ordered.child_lt_size member) (Nat.not_lt_of_le new)
    · exact ih later

theorem trans (first : Extends parent before middle) (second : Extends parent middle after)
    (valid : parent < before.size) : Extends parent before after where
  ordered := second.ordered
  size_le := Nat.le_trans first.size_le second.size_le
  children := by
    intro id old
    obtain ⟨fresh, same, new, place⟩ := first.children old
    obtain ⟨later, same', new', place'⟩ := second.children (first.lt_size old)
    refine ⟨fresh ++ later, by rw [same', same, List.append_assoc], ?_, ?_⟩
    · intro child member
      rcases List.mem_append.1 member with here | there
      · exact new child here
      · exact Nat.le_trans first.size_le (new' child there)
    · intro some_child
      -- Without children of the first parse, those of the second tell the place.
      by_cases none : fresh = []
      · have more : later ≠ [] := by simpa [none] using some_child
        exact (place' more).imp_right fun under => first.underLast_old valid under old
      · exact place none
  kept := by
    intro id old found
    obtain ⟨mid, there, tag, above, place⟩ := first.kept found
    obtain ⟨new, there', tag', above', place'⟩ := second.kept there
    refine ⟨new, there', tag'.trans tag, above'.trans above, ?_⟩
    intro changed
    by_cases same : mid.text = old.text
    · have under := place' (same ▸ changed)
      exact first.underLast_old valid under (lt_size_of_get? found)
    · exact place same

theorem inside {last : NodeId} (extended : Extends last before after)
    (atEnd : (before.childrenOf parent).getLast? = some last) : Extends parent before after where
  ordered := extended.ordered
  size_le := extended.size_le
  children := by
    intro id old
    obtain ⟨fresh, same, new, place⟩ := extended.children old
    refine ⟨fresh, same, new, fun some_child => .inr ⟨last, atEnd, ?_⟩⟩
    rcases place some_child with rfl | ⟨deeper, atEnd', under⟩
    · exact .here
    · exact (Under.here.deeper (List.mem_of_getLast? atEnd')).trans under
  kept := by
    intro id old found
    obtain ⟨new, there, tag, above, place⟩ := extended.kept found
    refine ⟨new, there, tag, above, fun changed => ⟨last, atEnd, ?_⟩⟩
    obtain ⟨deeper, atEnd', under⟩ := place changed
    exact (Under.here.deeper (List.mem_of_getLast? atEnd')).trans under

-- Attributes are no content.
theorem modify_attributes (extended : Extends parent before after)
    {change : Element → Element} (keeps : KeepsLinks change)
    (tag : ∀ element, (change element).tag = element.tag)
    (text : ∀ element, (change element).text = element.text) :
    Extends parent before (after.modify id change) where
  ordered := extended.ordered.modify keeps
  size_le := by
    rw [size_modify]
    exact extended.size_le
  children := by
    intro other old
    rw [childrenOf_modify keeps.children]
    exact extended.children old
  kept := by
    intro other old found
    obtain ⟨new, there, sameTag, above, place⟩ := extended.kept found
    rw [get?_modify, there]
    refine ⟨_, rfl, ?_⟩
    split
    · exact ⟨(tag new).trans sameTag, (keeps.parent new).trans above, fun changed =>
        place (text new ▸ changed)⟩
    · exact ⟨sameTag, above, place⟩

end Extends

namespace Grows

theorem refl (ordered : before.Ordered) : Grows parent before before where
  toExtends := .refl ordered
  attributes := by
    intro id old new found found'
    rw [found] at found'
    cases found'
    rfl
  plain := by
    intro id new outside found
    rw [get?_eq_none outside] at found
    cases found

theorem trans (first : Grows parent before middle) (second : Grows parent middle after)
    (valid : parent < before.size) : Grows parent before after where
  toExtends := first.toExtends.trans second.toExtends valid
  attributes := by
    intro id old new found found'
    obtain ⟨mid, there, -⟩ := first.kept found
    exact (second.attributes there found').trans (first.attributes found there)
  plain := by
    intro id new outside found
    by_cases made : id < middle.size
    · obtain ⟨mid, there⟩ := exists_get? made
      rw [second.attributes there found]
      exact first.plain outside there
    · exact second.plain (Nat.le_of_not_lt made) found

theorem inside {last : NodeId} (grown : Grows last before after)
    (atEnd : (before.childrenOf parent).getLast? = some last) : Grows parent before after where
  toExtends := grown.toExtends.inside atEnd
  attributes := grown.attributes
  plain := grown.plain

theorem attached (ordered : before.Ordered) (valid : parent < before.size) {element : Element}
    (leaf : element.children = []) (plain : element.attributes.keys ⊆ ["class"]) :
    Grows parent before (before.attached parent element) where
  ordered := ordered.attached valid leaf
  size_le := by
    rw [size_attached]
    exact Nat.le_succ _
  children := by
    intro id old
    by_cases same : id = parent
    · subst same
      exact ⟨[before.size], childrenOf_attached valid, by simp, fun _ => .inl rfl⟩
    · exact ⟨[], by rw [childrenOf_attached_of_ne valid leaf same, List.append_nil], by simp⟩
  kept := by
    intro id old found
    rw [get?_attached valid, if_neg (Nat.ne_of_lt (lt_size_of_get? found)), found]
    refine ⟨_, rfl, ?_⟩
    split <;> exact ⟨rfl, rfl, fun changed => absurd rfl changed⟩
  attributes := by
    intro id old new found found'
    rw [get?_attached valid, if_neg (Nat.ne_of_lt (lt_size_of_get? found)), found] at found'
    cases found'
    split <;> rfl
  plain := by
    intro id new outside found
    rw [get?_attached valid, get?_eq_none outside] at found
    split at found
    · cases found
      exact plain
    · cases found

theorem modify_text (ordered : before.Ordered) {change : Element → Element}
    (keeps : KeepsLinks change) (tag : ∀ element, (change element).tag = element.tag)
    (attributes : ∀ element, (change element).attributes = element.attributes)
    (under : before.UnderLast parent id) : Grows parent before (before.modify id change) where
  ordered := ordered.modify keeps
  size_le := Nat.le_of_eq size_modify.symm
  children := by
    intro other old
    exact ⟨[], by rw [childrenOf_modify keeps.children, List.append_nil], by simp⟩
  kept := by
    intro other old found
    rw [get?_modify, found]
    refine ⟨_, rfl, ?_⟩
    split
    · next same => exact ⟨tag old, keeps.parent old, fun _ => same ▸ under⟩
    · exact ⟨rfl, rfl, fun changed => absurd rfl changed⟩
  attributes := by
    intro other old new found found'
    rw [get?_modify, found] at found'
    cases found'
    split
    · exact attributes old
    · rfl
  plain := by
    intro other new outside found
    rw [get?_modify, get?_eq_none outside] at found
    cases found

theorem modify_new (grown : Grows parent before after) (new : before.size ≤ id)
    {change : Element → Element} (keeps : KeepsLinks change)
    (plain : ∀ element, element.attributes.keys ⊆ ["class"] →
      (change element).attributes.keys ⊆ ["class"]) :
    Grows parent before (after.modify id change) where
  ordered := grown.ordered.modify keeps
  size_le := by
    rw [size_modify]
    exact grown.size_le
  children := by
    intro other old
    rw [childrenOf_modify keeps.children]
    exact grown.children old
  kept := by
    intro other old found
    rw [get?_modify_of_ne (Nat.ne_of_lt (Nat.lt_of_lt_of_le (lt_size_of_get? found) new))]
    exact grown.kept found
  attributes := by
    intro other old element found found'
    rw [get?_modify_of_ne (Nat.ne_of_lt (Nat.lt_of_lt_of_le (lt_size_of_get? found) new))] at found'
    exact grown.attributes found found'
  plain := by
    intro other element outside found
    rw [get?_modify] at found
    obtain ⟨held, there, rfl⟩ := Option.map_eq_some_iff.1 found
    split
    · exact plain held (grown.plain outside there)
    · exact grown.plain outside there

theorem detached_new (grown : Grows parent before after) (new : before.size ≤ id)
    (new' : before.size ≤ other) (member : id ∈ after.childrenOf other) :
    Grows parent before (after.detached id other) := by
  have different : id ≠ other := Nat.ne_of_gt (grown.ordered.lt_of_mem_childrenOf member)
  -- Both ends of the link are new, so every old element is left as it was.
  have same {old : NodeId} (earlier : old < before.size) :
      (after.detached id other).get? old = after.get? old :=
    get?_detached_of_ne (Nat.ne_of_lt (Nat.lt_of_lt_of_le earlier new))
      (Nat.ne_of_lt (Nat.lt_of_lt_of_le earlier new'))
  refine ⟨⟨?ordered, ?size_le, ?children, ?kept⟩, ?attributes, ?plain⟩
  case ordered => exact grown.ordered.detached member different
  case size_le =>
    rw [size_detached]
    exact grown.size_le
  case children =>
    intro old earlier
    rw [childrenOf, same earlier]
    exact grown.children earlier
  case kept =>
    intro old element found
    rw [same (lt_size_of_get? found)]
    exact grown.kept found
  case attributes =>
    intro old element element' found found'
    rw [same (lt_size_of_get? found)] at found'
    exact grown.attributes found found'
  case plain =>
    intro old element outside found
    rw [get?_detached different] at found
    obtain ⟨held, there, rfl⟩ := Option.map_eq_some_iff.1 found
    have plain := grown.plain outside there
    split
    · exact plain
    · split <;> exact plain

end Grows

end Tracemark.Tree
