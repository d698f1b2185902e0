import Tracemark.Grammar.Leaf
import Tracemark.Proofs.Dispatch.Pairing
import Tracemark.Proofs.Tree.Closed

/-! Handlers that parse no text again are lawful. -/

set_option autoImplicit false

namespace Tracemark.Grammar

open Tracemark.Dispatch (weight weight_cons weight_nil)
open Tracemark.LineShape (isIndented dedent)
open Tracemark.Tree (Grows UnderLast)

theorem putBack_eq_append (text : Text) (queue : List Text) :
    putBack text queue = putBack text [] ++ queue := by
  unfold putBack
  split <;> rfl

theorem weight_putBack_le (text : Text) : weight (putBack text []) ≤ text.length + 1 := by
  unfold putBack
  split <;> simp

theorem dropLeadingFeeds_isBlank {block : Text} (blank : block.isBlank = true) :
    block.dropLeadingFeeds.isBlank = true := by
  rw [Text.isBlank, List.all_eq_true] at blank ⊢
  exact fun c member => blank c (List.dropWhile_subset _ member)

theorem weight_putBack_dropLeadingFeeds_lt {block : Text}
    (accepted : block.isBlank = true ∨ block.head? = some '\n') :
    weight (putBack block.dropLeadingFeeds []) < weight [block] := by
  rw [weight_cons, weight_nil]
  rcases accepted with blank | feed
  · rw [putBack, if_pos (dropLeadingFeeds_isBlank blank), weight_nil]
    exact Nat.succ_pos _
  · obtain ⟨rest, rfl⟩ : ∃ rest, block = '\n' :: rest := List.head?_eq_some_iff.1 feed
    have shorter : (Text.dropLeadingFeeds ('\n' :: rest)).length ≤ rest.length := by
      rw [Text.dropLeadingFeeds, List.dropWhile_cons_of_pos (by decide)]
      exact (List.dropWhile_sublist _).length_le
    have := weight_putBack_le (Text.dropLeadingFeeds ('\n' :: rest))
    rw [List.length_cons]
    omega

theorem empty_lawful : empty.Lawful where
  accepts := fun _ => rfl
  run := by
    intro pairing first second a b floor parent block accepted _ paired _ _
    have either : block.isBlank = true ∨ block.head? = some '\n' := by
      simpa [empty] using accepted
    refine ⟨a, b, putBack block.dropLeadingFeeds [], paired, .refl paired.ordered,
      weight_putBack_dropLeadingFeeds_lt either, fun rest => ?_⟩
    rw [← putBack_eq_append]
    exact ⟨rfl, rfl⟩

/-! Code.

A code block is two elements, and the inner one is the last child of the outer one.
-/

def withCode (tree : Tree) (parent : NodeId) (code : Text) : Tree :=
  (tree.attached parent { tag := "pre" }).attached tree.size { tag := "code", text := some code }

theorem append_code_eq_ok {tree : Tree} {parent : NodeId} {code : Text} {α : Type}
    (valid : parent < tree.size) (next : NodeId × Tree → Except Fault α) :
    (do
      let (pre, tree) ← tree.append parent "pre"
      let made ← tree.appendText pre "code" code
      next made) = next (tree.size + 1, withCode tree parent code) := by
  have within := Tree.size_lt_attached tree parent { tag := "pre" }
  simp only [Tree.append, Tree.appendText, Tree.attach_eq_ok valid, bind, Except.bind,
    Tree.attach_eq_ok within, Tree.size_attached]
  rfl

section

variable {pairing : Pairing} {a b : Tree} {parent : NodeId}

theorem paired_withCode (paired : pairing.Paired a b) (valid : parent < a.size) (code : Text) :
    pairing.Paired (withCode a parent code) (withCode b (parent + pairing.shift) code) := by
  have outer := paired.attached valid { tag := "pre" } rfl rfl
  have within := Tree.size_lt_attached a parent { tag := "pre" }
  have inner := outer.attached within { tag := "code", text := some code } rfl rfl
  rw [← paired.matched.size] at inner
  exact inner

theorem grows_withCode (ordered : a.Ordered) (valid : parent < a.size) (code : Text) :
    Grows parent a (withCode a parent code) := by
  have outer : Grows parent a (a.attached parent { tag := "pre" }) :=
    .attached ordered valid rfl (List.nil_subset _)
  have within := Tree.size_lt_attached a parent { tag := "pre" }
  have inner : Grows a.size (a.attached parent { tag := "pre" }) (withCode a parent code) :=
    .attached outer.ordered within rfl (List.nil_subset _)
  exact outer.trans (inner.inside (Tree.getLast?_childrenOf_attached valid _)) valid

theorem insert_class {attributes : Attributes} (value : Text)
    (plain : attributes.keys ⊆ ["class"]) : (attributes.insert "class" value).keys ⊆ ["class"] := by
  rw [OrderedMap.keys_insert]
  split
  · exact plain
  · simpa using plain

theorem stash_lawful : stash.Lawful where
  accepts := by
    intro left right parent parent' block same
    simp only [stash, same]
  run := by
    intro pairing first second a b floor parent block accepted _ paired _ valid
    have within := paired.matched.valid valid
    obtain ⟨fragment, found⟩ := Option.isSome_iff_exists.1 accepted
    have found' : pairing.right.stash.resolve? block = some fragment := pairing.stash ▸ found
    have grown := grows_withCode paired.ordered valid fragment.code
    have paired' := paired_withCode paired valid fragment.code
    have outside : a.size + 1 < (withCode a parent fragment.code).size := by
      simp [withCode]
    cases language : fragment.language with
    | none =>
      refine ⟨_, _, [], paired', grown, by simp, fun rest => ?_⟩
      constructor
      · simp only [stash, Session.setTree, found, append_code_eq_ok valid, language]
        rfl
      · simp only [stash, Session.setTree, found', append_code_eq_ok within, language]
        rfl
    | some name =>
      let change (element : Element) : Element :=
        { element with
          attributes := element.attributes.insert "class" ("language-".toList ++ name) }
      have keeps : Tree.KeepsLinks change := ⟨fun _ => rfl, fun _ => rfl⟩
      refine ⟨_, _, [], paired'.modify (a.size + 1) keeps keeps ?_,
        grown.modify_new (Nat.le_succ _) keeps fun _ => insert_class _, by simp, fun rest => ?_⟩
      · intro before after same
        refine ⟨same.tag, same.text, ?_, same.parent⟩
        simp only [change, same.attributes]
        rw [OrderedMap.without_insert_of_not_mem _ _ pairing.shown]
      · constructor
        · simp only [stash, Session.setTree, found, append_code_eq_ok valid, language,
            Tree.setAttribute, Tree.update_eq_ok outside]
          rfl
        · have outside' := paired'.matched.valid outside
          rw [Nat.add_right_comm, ← paired.matched.size] at outside'
          simp only [stash, Session.setTree, found', append_code_eq_ok within, language,
            Tree.setAttribute, Tree.update_eq_ok outside']
          rw [Nat.add_right_comm, ← paired.matched.size]
          rfl

def codeIn (tree : Tree) (element : Element) : Except Fault (Option NodeId) := do
  if element.tag ≠ "pre" then return none
  let some code := element.children.head? | return none
  if (← tree.element code).tag = "code" then return some code else return none

theorem lastCode?_eq_codeIn {tree : Tree} {parent sibling : NodeId} {element : Element}
    (valid : parent < tree.size) (atEnd : (tree.childrenOf parent).getLast? = some sibling)
    (found : tree.get? sibling = some element) : lastCode? tree parent = codeIn tree element := by
  simp only [lastCode?, Tree.lastChild?_eq_ok valid, atEnd]
  change (tree.element sibling).bind _ = _
  rw [Tree.element_eq_ok found]
  rfl

def CodeAtEnd (tree : Tree) (parent code : NodeId) : Prop :=
  ∃ pre outer inner, (tree.childrenOf parent).getLast? = some pre ∧ tree.get? pre = some outer ∧
    outer.tag = "pre" ∧ outer.children.head? = some code ∧ tree.get? code = some inner ∧
    inner.tag = "code"

theorem exists_lastCode? {tree : Tree} {parent : NodeId} (closed : tree.Closed)
    (valid : parent < tree.size) :
    ∃ found, lastCode? tree parent = .ok found ∧
      ∀ code, found = some code ↔ CodeAtEnd tree parent code := by
  cases atEnd : (tree.childrenOf parent).getLast? with
  | none =>
    refine ⟨none, ?_, by simp [CodeAtEnd, atEnd]⟩
    simp only [lastCode?, Tree.lastChild?_eq_ok valid, atEnd]
    rfl
  | some pre =>
    obtain ⟨outer, found⟩ := Tree.exists_get? (closed.lt_size (List.mem_of_getLast? atEnd))
    have shape {code : NodeId} : CodeAtEnd tree parent code ↔ outer.tag = "pre" ∧
        outer.children.head? = some code ∧ ∃ inner, tree.get? code = some inner ∧ inner.tag = "code" := by
      simp [CodeAtEnd, atEnd, found]
    rw [lastCode?_eq_codeIn valid atEnd found, codeIn]
    by_cases outerTag : outer.tag = "pre"
    · simp only [outerTag, ne_eq, not_true_eq_false, if_false]
      cases first : outer.children.head? with
      | none => exact ⟨none, rfl, by simp [shape, first]⟩
      | some code =>
        obtain ⟨inner, found'⟩ := Tree.exists_get? (closed.child found (List.mem_of_head? first))
        simp only [Tree.element_eq_ok found', bind, Except.bind]
        by_cases innerTag : inner.tag = "code"
        · simp only [innerTag, if_true]
          refine ⟨some code, rfl, fun other => ⟨?_, fun last => ?_⟩⟩
          · rintro ⟨⟩
            exact shape.2 ⟨outerTag, first, inner, found', innerTag⟩
          · exact first.symm.trans (shape.1 last).2.1
        · simp only [innerTag, if_false]
          exact ⟨none, rfl, by simp [shape, first, found', innerTag]⟩
    · simp only [outerTag, ne_eq, not_false_eq_true, if_true]
      exact ⟨none, rfl, by simp [shape, outerTag]⟩

theorem lastCode?_paired (paired : pairing.Paired a b) (valid : parent < a.size) :
    ∃ found, lastCode? a parent = .ok found ∧
      lastCode? b (parent + pairing.shift) = .ok (found.map (· + pairing.shift)) ∧
      ∀ code ∈ found, code < a.size ∧ a.UnderLast parent code := by
  have within := paired.matched.valid valid
  have last := paired.matched.getLast?_childrenOf parent
  cases atEnd : (a.childrenOf parent).getLast? with
  | none =>
    rw [atEnd] at last
    refine ⟨none, ?_, ?_, by simp⟩
    · simp only [lastCode?, Tree.lastChild?_eq_ok valid, atEnd]
      rfl
    · simp only [lastCode?, Tree.lastChild?_eq_ok within, last]
      rfl
  | some sibling =>
    rw [atEnd] at last
    obtain ⟨before, after, found, there, same, children⟩ :=
      paired.child (List.mem_of_getLast? atEnd)
    rw [lastCode?_eq_codeIn valid atEnd found, lastCode?_eq_codeIn within last there]
    unfold codeIn
    rw [same.tag, children]
    by_cases pre : before.tag = "pre"
    · simp only [pre, ne_eq, not_true_eq_false, if_false]
      cases inside : before.children with
      | nil => exact ⟨none, rfl, rfl, by simp⟩
      | cons code others =>
        have member : code ∈ a.childrenOf sibling := by
          rw [Tree.childrenOf_eq found, inside]
          exact List.mem_cons_self
        obtain ⟨inner, inner', found', there', same', -⟩ := paired.child member
        simp only [List.head?_cons, List.map_cons, Tree.element_eq_ok found',
          Tree.element_eq_ok there', bind, Except.bind, same'.tag]
        by_cases tag : inner.tag = "code"
        · simp only [tag, if_true]
          refine ⟨some code, rfl, rfl, ?_⟩
          intro other same
          cases same
          exact ⟨paired.ordered.child_lt_size member, sibling, atEnd, .deeper .here member⟩
        · simp only [tag, if_false]
          exact ⟨none, rfl, rfl, by simp⟩
    · simp only [pre, ne_eq, not_false_eq_true, if_true]
      exact ⟨none, rfl, rfl, by simp⟩

end

def codeOf (block : Text) : Text :=
  Text.dropTrailingFeeds (Text.joinLines
    ((block.lines.takeWhile fun line => isIndented line || line.isBlank).map dedent))

def behindCode (block : Text) : List Text :=
  match block.lines.dropWhile fun line => isIndented line || line.isBlank with
  | [] => []
  | others => [Text.joinLines others]

theorem behindCode_append (block : Text) (rest : List Text) : behindCode block ++ rest =
    match block.lines.dropWhile fun line => isIndented line || line.isBlank with
    | [] => rest
    | others => Text.joinLines others :: rest := by
  unfold behindCode
  split <;> simp_all

theorem isIndented_firstLine {block : Text} (indented : isIndented block = true) :
    isIndented block.firstLine = true := by
  have spaces : block.take tabWidth = List.replicate tabWidth ' ' := by
    simpa [isIndented] using indented
  have split : block = List.replicate tabWidth ' ' ++ block.drop tabWidth := by
    rw [← spaces, List.take_append_drop]
  have start : block.firstLine =
      List.replicate tabWidth ' ' ++ Text.firstLine (block.drop tabWidth) := by
    rw [Text.firstLine, split, List.takeWhile_append_of_pos]
    · rw [Text.firstLine, List.drop_left' List.length_replicate]
    · simp [List.mem_replicate]
  rw [isIndented, start, List.take_left' List.length_replicate]
  simp

theorem weight_behindCode_lt {block : Text} (accepted : isIndented block = true) :
    weight (behindCode block) < weight [block] := by
  have whole := Text.spread_takeWhile_add_dropWhile
    (fun line => isIndented line || line.isBlank) block.lines
  rw [Text.spread_lines] at whole
  obtain ⟨first, rest, same⟩ := Text.exists_lines_eq_cons block
  have start := Text.firstLine_eq_head_lines block
  rw [same, List.head?_cons, Option.some.injEq] at start
  have code : (isIndented first || first.isBlank) = true := by
    rw [start, isIndented_firstLine accepted, Bool.true_or]
  have some_code : 0 < Text.spread
      (block.lines.takeWhile fun line => isIndented line || line.isBlank) := by
    simp only [same, List.takeWhile_cons, code, if_true, Text.spread_cons]
    omega
  cases behind : block.lines.dropWhile fun line => isIndented line || line.isBlank with
  | nil => simp [behindCode, behind]
  | cons line others =>
    have length := Text.length_joinLines (List.cons_ne_nil line others)
    rw [behind] at whole
    simp only [behindCode, behind, weight_cons, weight_nil]
    omega

def moreCode (code : Text) (element : Element) : Element :=
  { element with text := some (element.text.getD [] ++ '\n' :: '\n' :: code) }

theorem keepsLinks_moreCode (code : Text) : Tree.KeepsLinks (moreCode code) :=
  ⟨fun _ => rfl, fun _ => rfl⟩

section

variable {parser : Reparse} {session : Session} {parent code : NodeId} {block : Text}

theorem indentedCode_run_new (valid : parent < session.tree.size)
    (last : lastCode? session.tree parent = .ok none) (rest : List Text) :
    indentedCode.run parser session parent block rest =
      .ok (.handled (session.setTree (withCode session.tree parent (codeOf block)))
        (behindCode block ++ rest)) := by
  rw [behindCode_append]
  simp only [indentedCode, last, append_code_eq_ok valid]
  rfl

-- Code that follows other code goes on with it.
theorem indentedCode_run_more (held : code < session.tree.size)
    (last : lastCode? session.tree parent = .ok (some code)) (rest : List Text) :
    indentedCode.run parser session parent block rest =
      .ok (.handled (session.setTree (session.tree.modify code (moreCode (codeOf block))))
        (behindCode block ++ rest)) := by
  rw [behindCode_append]
  simp only [indentedCode, last]
  change (session.tree.update code (moreCode (codeOf block))).bind _ = _
  rw [Tree.update_eq_ok held]
  rfl

end

theorem indentedCode_lawful : indentedCode.Lawful where
  accepts := fun _ => rfl
  run := by
    intro pairing first second a b floor parent block accepted _ paired _ valid
    have within := paired.matched.valid valid
    have light := weight_behindCode_lt accepted
    obtain ⟨found, onLeft, onRight, place⟩ := lastCode?_paired paired valid
    cases found with
    | none =>
      exact ⟨_, _, behindCode block, paired_withCode paired valid (codeOf block),
        grows_withCode paired.ordered valid _, light, fun rest =>
          ⟨indentedCode_run_new valid onLeft rest, indentedCode_run_new within onRight rest⟩⟩
    | some code =>
      obtain ⟨held, under⟩ := place code rfl
      have keeps := keepsLinks_moreCode (codeOf block)
      refine ⟨_, _, behindCode block, paired.modify code keeps keeps ?_,
        .modify_text paired.ordered keeps (fun _ => rfl) (fun _ => rfl) under, light,
        fun rest => ⟨indentedCode_run_more held onLeft rest,
          indentedCode_run_more (paired.matched.valid held) onRight rest⟩⟩
      intro before after same
      refine ⟨same.tag, ?_, same.attributes, same.parent⟩
      simp only [moreCode, same.text]

theorem paragraph_lawful : paragraph.Lawful where
  accepts := fun _ => rfl
  run := by
    intro pairing first second a b floor parent block _ _ paired _ valid
    have within := paired.matched.valid valid
    by_cases none : paragraphText block = []
    · refine ⟨a, b, [], paired, .refl paired.ordered, by simp, fun rest => ?_⟩
      simp only [paragraph, none, if_true]
      exact ⟨rfl, rfl⟩
    · let element : Element := { tag := "p", text := some (paragraphText block) }
      refine ⟨_, _, [], paired.attached valid element rfl rfl,
        .attached paired.ordered valid rfl (List.nil_subset _), by simp, fun rest => ?_⟩
      constructor
      · simp only [paragraph, none, if_false, Tree.appendText]
        change (a.attach parent element).bind _ = _
        rw [Tree.attach_eq_ok valid]
        rfl
      · simp only [paragraph, none, if_false, Tree.appendText]
        change (b.attach (parent + pairing.shift) element).bind _ = _
        rw [Tree.attach_eq_ok within]
        rfl

end Tracemark.Grammar
