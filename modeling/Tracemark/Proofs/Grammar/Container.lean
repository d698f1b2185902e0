import Tracemark.Grammar.Container
import Tracemark.Proofs.Dispatch.Pairing

/-! Handlers whose elements hold blocks are lawful.

A marker is taken off the first line of whatever is parsed again, so the text inside an element is
shorter than its block. An item is the last child of its list while it is parsed, and an item that is
tightened is younger than all that stood before the list was written on.
-/

set_option autoImplicit false

namespace Tracemark

namespace LineShape

variable {line text : Text} {kind : ListKind}

theorem length_le_of_unindent? (found : unindent? line = some text) :
    text.length ≤ line.length := by
  unfold unindent? at found
  split at found
  · cases found
    exact (List.dropWhile_sublist _).length_le
  · cases found

theorem length_lt_of_marker? (found : marker? line = some (kind, text)) :
    text.length < line.length := by
  unfold marker? at found
  split at found
  · cases found
    exact Nat.lt_succ_self _
  · cases found
    exact Nat.lt_succ_self _
  · cases found
    exact Nat.lt_succ_self _
  · split at found
    · next behind =>
      cases found
      have shorter := (List.dropWhile_sublist Text.isDecimalDigit (l := line)).length_le
      rw [behind] at shorter
      exact shorter
    · cases found

theorem length_lt_of_item? (found : item? line = some (kind, text)) :
    text.length < line.length := by
  obtain ⟨unindented, indent, found⟩ := Option.bind_eq_some_iff.1 found
  obtain ⟨⟨other, rest⟩, marker, found⟩ := Option.bind_eq_some_iff.1 found
  have first := length_le_of_unindent? indent
  have second := length_lt_of_marker? marker
  obtain ⟨_, found⟩ := Option.ite_none_right_eq_some.1 found
  cases found
  have third := (List.dropWhile_sublist (fun c => decide (c = ' ')) (l := rest)).length_le
  omega

theorem length_dropSpace_le (text : Text) : (dropSpace text).length ≤ text.length := by
  unfold dropSpace
  split
  · exact Nat.le_succ _
  · exact Nat.le_refl _

theorem length_lt_of_quoted? (found : quoted? line = some text) : text.length < line.length := by
  unfold quoted? at found
  split at found
  · next rest indent =>
    cases found
    have first := length_le_of_unindent? indent
    have second := length_dropSpace_le rest
    rw [List.length_cons] at first
    omega
  · cases found

theorem length_dedent_le (line : Text) : (dedent line).length ≤ line.length :=
  (List.drop_sublist _ _).length_le

end LineShape

namespace Grammar

open Tracemark.Dispatch (weight weight_cons weight_nil weight_blocks_le)
open Tracemark.LineShape (ListKind dedent item? quoted?)
open Tracemark.Tree (Grows)

/-! Weights. -/

theorem spread_body_lt {kind : ListKind} {lines body : List Text}
    (member : body ∈ itemBodies kind lines) : body ≠ [] ∧ Text.spread body < Text.spread lines := by
  induction lines with
  | nil => simp [itemBodies] at member
  | cons line rest ih =>
    have later (member : body ∈ itemBodies kind rest) :
        body ≠ [] ∧ Text.spread body < Text.spread (line :: rest) := by
      obtain ⟨some_line, less⟩ := ih member
      rw [Text.spread_cons]
      exact ⟨some_line, by omega⟩
    unfold itemBodies at member
    split at member
    · next found text item =>
      split at member
      · rcases List.mem_cons.1 member with rfl | member
        · refine ⟨List.cons_ne_nil _ _, ?_⟩
          have marked := LineShape.length_lt_of_item? item
          have below := Text.spread_map_le LineShape.length_dedent_le
            (rest.takeWhile fun line => decide ((item? line).map (·.1) ≠ some kind))
          have parts := Text.spread_takeWhile_add_dropWhile
            (fun line => decide ((item? line).map (·.1) ≠ some kind)) rest
          rw [Text.spread_cons, Text.spread_cons]
          omega
        · exact later member
      · exact later member
    · exact later member

theorem weight_body_lt {kind : ListKind} {block : Text} {body : List Text}
    (member : body ∈ itemBodies kind block.lines) :
    weight (Text.joinLines body).blocks < weight [block] := by
  obtain ⟨some_line, less⟩ := spread_body_lt member
  rw [Text.spread_lines, ← Text.length_joinLines some_line] at less
  have parts := weight_blocks_le (Text.joinLines body)
  simp only [weight_cons, weight_nil]
  omega

theorem length_unquoted_le (line : Text) : ((quoted? line).getD line).length ≤ line.length := by
  cases found : quoted? line with
  | none => exact Nat.le_refl _
  | some text => exact Nat.le_of_lt (LineShape.length_lt_of_quoted? found)

theorem weight_unquote_lt {block : Text} (quoted : (quoted? block.firstLine).isSome = true) :
    weight (unquote block).blocks < weight [block] := by
  obtain ⟨text, found⟩ := Option.isSome_iff_exists.1 quoted
  obtain ⟨first, rest, same⟩ := Text.exists_lines_eq_cons block
  have start := Text.firstLine_eq_head_lines block
  rw [same, List.head?_cons, Option.some.injEq] at start
  have shorter := LineShape.length_lt_of_quoted? found
  have others := Text.spread_map_le length_unquoted_le rest
  have whole := Text.spread_lines block
  have length := Text.length_joinLines
    (List.cons_ne_nil text (rest.map fun line => (quoted? line).getD line))
  have parts := weight_blocks_le (unquote block)
  have written : unquote block =
      Text.joinLines (text :: rest.map fun line => (quoted? line).getD line) := by
    rw [unquote, same, List.map_cons, start, found, Option.getD_some]
  rw [← written, Text.spread_cons] at length
  rw [same, Text.spread_cons, start] at whole
  simp only [weight_cons, weight_nil]
  omega

/-! Trees. -/

variable {pairing : Pairing} {a b : Tree} {parent : NodeId} {first second : Reparse}

theorem openContainer_paired (tag : String) (paired : pairing.Paired a b) (valid : parent < a.size) :
    ∃ node a' b', openContainer a parent tag = .ok (node, a') ∧
      openContainer b (parent + pairing.shift) tag = .ok (node + pairing.shift, b') ∧
      pairing.Paired a' b' ∧ Grows parent a a' ∧ node < a'.size ∧
      (a'.childrenOf parent).getLast? = some node := by
  have within := paired.matched.valid valid
  have last := paired.matched.getLast?_childrenOf parent
  -- A new container is the last child of `parent` on both sides.
  have made : ∃ node a' b', a.append parent tag = .ok (node, a') ∧
      b.append (parent + pairing.shift) tag = .ok (node + pairing.shift, b') ∧
      pairing.Paired a' b' ∧ Grows parent a a' ∧ node < a'.size ∧
      (a'.childrenOf parent).getLast? = some node := by
    refine ⟨a.size, a.attached parent { tag }, b.attached (parent + pairing.shift) { tag },
      Tree.attach_eq_ok valid, ?_, paired.attached valid _ rfl rfl,
      .attached paired.ordered valid rfl (List.nil_subset _), Tree.size_lt_attached _ _ _,
      Tree.getLast?_childrenOf_attached valid _⟩
    rw [← paired.matched.size]
    exact Tree.attach_eq_ok within
  cases atEnd : (a.childrenOf parent).getLast? with
  | none =>
    rw [atEnd] at last
    simp only [openContainer, Tree.lastChild?_eq_ok valid, Tree.lastChild?_eq_ok within, atEnd, last]
    exact made
  | some sibling =>
    rw [atEnd] at last
    have member := List.mem_of_getLast? atEnd
    obtain ⟨before, after, found, there, same, -⟩ := paired.child member
    simp only [openContainer, Tree.lastChild?_eq_ok valid, Tree.lastChild?_eq_ok within, atEnd, last,
      Option.map_some, Tree.element_eq_ok found, Tree.element_eq_ok there, bind, Except.bind,
      same.tag]
    by_cases kind : before.tag = tag
    · simp only [kind, if_true]
      exact ⟨sibling, a, b, rfl, rfl, paired, .refl paired.ordered,
        paired.ordered.child_lt_size member, atEnd⟩
    · simp only [kind, if_false]
      exact made

theorem keepsLinks_text (text : Option Text) :
    Tree.KeepsLinks fun element => { element with text } :=
  ⟨fun _ => rfl, fun _ => rfl⟩

def untied (tree : Tree) (item only : NodeId) (text : Option Text) : Tree :=
  ((tree.modify only fun element => { element with text := none }).detached only item).modify item
    fun element => { element with text }

theorem untie_eq_ok {tree : Tree} {item only : NodeId} {element : Element} (valid : item < tree.size)
    (found : tree.get? only = some element) (named : element.parent = some item) :
    (do
      let tree ← tree.setText only none
      let tree ← tree.detach only
      tree.setText item element.text) = .ok (untied tree item only element.text) := by
  let cleared := tree.modify only fun element => { element with text := none }
  have found' : cleared.get? only = some { element with text := none } := by
    rw [Tree.get?_modify_self, found]
    rfl
  have valid' : item < cleared.size := by
    rw [Tree.size_modify]
    exact valid
  have valid'' : item < (cleared.detached only item).size := by
    rw [Tree.size_detached]
    exact valid'
  simp only [Tree.setText, Tree.update_eq_ok (Tree.lt_size_of_get? found), bind, Except.bind]
  change (cleared.detach only).bind _ = _
  rw [Tree.detach_eq_ok found' named valid']
  exact Tree.update_eq_ok valid''

theorem tighten_paired {item : NodeId} (paired : pairing.Paired a b) (valid : item < a.size) :
    ∃ a' b', tighten a item = .ok a' ∧ tighten b (item + pairing.shift) = .ok b' ∧
      pairing.Paired a' b' ∧
      ∀ {parent : NodeId} {before : Tree}, before.size ≤ item → Grows parent before a →
        Grows parent before a' := by
  have within := paired.matched.valid valid
  have children := paired.matched.children item
  have kept : ∃ a' b', (.ok a : Except Fault Tree) = .ok a' ∧
      (.ok b : Except Fault Tree) = .ok b' ∧ pairing.Paired a' b' ∧
      ∀ {parent : NodeId} {before : Tree}, before.size ≤ item → Grows parent before a →
        Grows parent before a' :=
    ⟨a, b, rfl, rfl, paired, fun _ grown => grown⟩
  unfold tighten
  rw [Tree.children_eq_ok valid, Tree.children_eq_ok within, children]
  match inside : a.childrenOf item with
  | [] => exact kept
  | _ :: _ :: _ => exact kept
  | [only] =>
    have member : only ∈ a.childrenOf item := inside ▸ List.mem_singleton_self only
    obtain ⟨before, after, found, there, same, children⟩ := paired.child member
    obtain ⟨named, named'⟩ : before.parent = some item ∧
        after.parent = some (item + pairing.shift) := by
      obtain ⟨above, found', member'⟩ := Tree.mem_childrenOf_iff.1 member
      obtain ⟨below, here, parent⟩ := paired.ordered.parent_of_mem found' member'
      rw [found] at here
      cases here
      exact ⟨parent, by rw [same.parent, parent]; rfl⟩
    simp only [List.map_cons, List.map_nil, bind, Except.bind, Tree.element_eq_ok found,
      Tree.element_eq_ok there, same.tag, children]
    by_cases other : before.tag ≠ "p" ∨ before.children ≠ []
    · have other' : before.tag ≠ "p" ∨ before.children.map (· + pairing.shift) ≠ [] := by
        simpa using other
      simp only [other, other', if_true]
      exact kept
    · have other' : ¬(before.tag ≠ "p" ∨ before.children.map (· + pairing.shift) ≠ []) := by
        simpa using other
      simp only [other, other', if_false]
      have older := paired.ordered.lt_of_mem_childrenOf member
      have member' : only ∈ (a.modify only fun element =>
          { element with text := none }).childrenOf item := by
        rwa [Tree.childrenOf_modify (keepsLinks_text none).children]
      refine ⟨_, _, untie_eq_ok valid found named, untie_eq_ok within there named', ?_, ?_⟩
      · have cleared := paired.modify only (keepsLinks_text none) (keepsLinks_text none)
          fun same => ⟨same.tag, rfl, same.attributes, same.parent⟩
        exact (cleared.detached member').modify item (keepsLinks_text _) (keepsLinks_text _) fun below =>
          ⟨below.tag, same.text, below.attributes, below.parent⟩
      · intro parent start new grown
        have new' : start.size ≤ only := Nat.le_trans new (Nat.le_of_lt older)
        have cleared := grown.modify_new new' (keepsLinks_text none) fun _ plain => plain
        exact (cleared.detached_new new' new member').modify_new new (keepsLinks_text _) fun _ plain => plain

theorem writeItems_paired {floor : NodeId} {bound : Nat}
    (follows : pairing.Follows floor bound first second)
    {bodies : List (List Text)} (light : ∀ body ∈ bodies, weight (Text.joinLines body).blocks < bound)
    (paired : pairing.Paired a b) (above : floor ≤ parent) (valid : parent < a.size) :
    ∃ a' b', writeItems first parent bodies (pairing.left.setTree a) =
        .ok (pairing.left.setTree a') ∧
      writeItems second (parent + pairing.shift) bodies (pairing.right.setTree b) =
        .ok (pairing.right.setTree b') ∧
      pairing.Paired a' b' ∧ Grows parent a a' := by
  induction bodies generalizing a b with
  | nil => exact ⟨a, b, rfl, rfl, paired, .refl paired.ordered⟩
  | cons body rest ih =>
    have within := paired.matched.valid valid
    have made := paired.attached valid { tag := "li" } rfl rfl
    have grown : Grows parent a (a.attached parent { tag := "li" }) :=
      .attached paired.ordered valid rfl (List.nil_subset _)
    have held := Tree.size_lt_attached a parent { tag := "li" }
    have atEnd := Tree.getLast?_childrenOf_attached valid { tag := "li" }
    obtain ⟨a', b', paired', grown', ran, ran'⟩ :=
      follows made (Nat.le_of_lt (Nat.lt_of_le_of_lt above valid)) held (light body List.mem_cons_self)
    have whole : Grows parent a a' := grown.trans (grown'.inside atEnd) valid
    obtain ⟨a'', b'', tight, tight', paired'', later⟩ :=
      tighten_paired paired' (grown'.lt_size held)
    have grown'' := later (Nat.le_refl _) whole
    obtain ⟨c, d, wrote, wrote', paired''', grown'''⟩ :=
      ih (fun body member => light body (List.mem_cons_of_mem _ member)) paired''
        (grown''.lt_size valid)
    refine ⟨c, d, ?_, ?_, paired''', grown''.trans grown''' valid⟩
    · rw [writeItems]
      change (a.attach parent { tag := "li" }).bind _ = _
      rw [Tree.attach_eq_ok valid]
      change (first (pairing.left.setTree _) _ _).bind _ = _
      rw [ran]
      change (tighten a' a.size).bind _ = _
      rw [tight]
      exact wrote
    · rw [writeItems]
      change (b.attach (parent + pairing.shift) { tag := "li" }).bind _ = _
      rw [Tree.attach_eq_ok within, paired.matched.size]
      change (second (pairing.right.setTree _) _ _).bind _ = _
      rw [ran']
      change (tighten b' (a.size + pairing.shift)).bind _ = _
      rw [tight']
      exact wrote'

theorem list_lawful : list.Lawful where
  accepts := fun _ => rfl
  run := by
    intro pairing first second a b floor parent block accepted follows paired above valid
    obtain ⟨⟨kind, text⟩, found⟩ := Option.isSome_iff_exists.1 accepted
    obtain ⟨node, a', b', made, made', paired', grown, held, atEnd⟩ :=
      openContainer_paired kind.tag paired valid
    have deeper := paired'.ordered.lt_of_mem_childrenOf (List.mem_of_getLast? atEnd)
    obtain ⟨a'', b'', wrote, wrote', paired'', grown'⟩ :=
      writeItems_paired follows (fun body member => weight_body_lt member) paired'
        (Nat.le_trans above (Nat.le_of_lt deeper)) held
    refine ⟨a'', b'', [], paired'', grown.trans (grown'.inside atEnd) valid, by simp,
      fun rest => ?_⟩
    constructor
    · simp only [list, found, Session.setTree, made]
      change (writeItems first node _ (pairing.left.setTree a')).bind _ = _
      rw [wrote]
      rfl
    · simp only [list, found, Session.setTree, made']
      change (writeItems second (node + pairing.shift) _ (pairing.right.setTree b')).bind _ = _
      rw [wrote']
      rfl

theorem blockquote_lawful : blockquote.Lawful where
  accepts := fun _ => rfl
  run := by
    intro pairing first second a b floor parent block accepted follows paired above valid
    obtain ⟨node, a', b', made, made', paired', grown, held, atEnd⟩ :=
      openContainer_paired "blockquote" paired valid
    have deeper := paired'.ordered.lt_of_mem_childrenOf (List.mem_of_getLast? atEnd)
    obtain ⟨a'', b'', paired'', grown', ran, ran'⟩ :=
      follows paired' (Nat.le_trans above (Nat.le_of_lt deeper)) held (weight_unquote_lt accepted)
    refine ⟨a'', b'', [], paired'', grown.trans (grown'.inside atEnd) valid, by simp,
      fun rest => ?_⟩
    constructor
    · simp only [blockquote, Session.setTree, made]
      change (first (pairing.left.setTree a') node _).bind _ = _
      rw [ran]
      rfl
    · simp only [blockquote, Session.setTree, made']
      change (second (pairing.right.setTree b') (node + pairing.shift) _).bind _ = _
      rw [ran']
      rfl

end Grammar

end Tracemark
