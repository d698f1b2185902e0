import Tracemark.Proofs.Grammar.Reference
import Tracemark.Proofs.Dispatch.Calls
import Tracemark.Proofs.Tree.Branches

/-! What the grammar makes of a queue, told by branches alone.

A derivation says how the branches under an element come about, one step for each way in which a
handler takes a block. It knows nothing of element numbers, of budgets, or of the sessions in between.
Every run of the grammar has a derivation, so what all derivations keep is kept by the grammar.
-/

set_option autoImplicit false

namespace Tracemark.Grammar

open Tracemark.Dispatch (offer run weight weight_cons weight_nil)
open Tracemark.LineShape (Cut ListKind cut? heading? isIndented item? quoted?)
open Tracemark.Tree (Grows)

inductive Work where
  | blocks (queue : List Text)
  | items (bodies : List (List Text))

def codeBranch (attributes : Attributes) (code : Text) : Branch :=
  .node "pre" none {} [.node "code" (some code) attributes []]

def languageClass : Option Text → Attributes
  | none => {}
  | some language => ({} : Attributes).insert "class" ("language-".toList ++ language)

/-- Code stands at the end, where more code would go on with it. -/
def EndsInCode (forest : List Branch) : Prop :=
  ∃ front text attributes code others,
    forest = front ++ [.node "pre" text attributes (code :: others)] ∧ code.tag = "code"

/-- A container at the end of a forest: what stands before it, and its text, attributes and branches.
It is there already, or it is new. -/
inductive Opens (tag : String) :
    List Branch → List Branch → Option Text → Attributes → List Branch → Prop
  | last {front children : List Branch} {text : Option Text} {attributes : Attributes} :
    Opens tag (front ++ [.node tag text attributes children]) front text attributes children
  | fresh {forest : List Branch} : (∀ last ∈ forest.getLast?, last.tag ≠ tag) →
    Opens tag forest forest none {} []

/-- The branches under an element before and after some work. -/
inductive Derives (stash : Stash) : Work → List Branch → List Branch → Prop
  | done {forest : List Branch} : Derives stash (.blocks []) forest forest
  | empty {block : Text} {rest : List Text} {forest after : List Branch} :
    block.isBlank = true ∨ block.head? = some '\n' →
    Derives stash (.blocks (putBack block.dropLeadingFeeds rest)) forest after →
    Derives stash (.blocks (block :: rest)) forest after
  | newCode {block : Text} {rest : List Text} {forest after : List Branch} :
    isIndented block = true → ¬EndsInCode forest →
    Derives stash (.blocks (behindCode block ++ rest)) (forest ++ [codeBranch {} (codeOf block)])
      after →
    Derives stash (.blocks (block :: rest)) forest after
  | moreCode {block : Text} {rest : List Text} {front others children after : List Branch}
      {text old : Option Text} {outer inner : Attributes} :
    isIndented block = true →
    Derives stash (.blocks (behindCode block ++ rest))
      (front ++ [.node "pre" text outer
        (.node "code" (some (old.getD [] ++ '\n' :: '\n' :: codeOf block)) inner children :: others)])
      after →
    Derives stash (.blocks (block :: rest))
      (front ++ [.node "pre" text outer (.node "code" old inner children :: others)]) after
  | heading {block : Text} {rest : List Text} {cut : Cut LineShape.Heading}
      {forest middle after : List Branch} :
    cut? heading? block = some cut →
    Derives stash (.blocks (putBack cut.before [])) forest middle →
    Derives stash (.blocks (putBack cut.behind rest))
      (middle ++ [.node (headingTag cut.found.level) (some cut.found.title) {} []]) after →
    Derives stash (.blocks (block :: rest)) forest after
  | rule {block : Text} {rest : List Text} {cut : Cut Unit} {forest middle after : List Branch} :
    cut? rule? block = some cut →
    Derives stash (.blocks (putBack cut.before [])) forest middle →
    Derives stash (.blocks (putBack cut.behind rest)) (middle ++ [.node "hr" none {} []]) after →
    Derives stash (.blocks (block :: rest)) forest after
  | list {block first : Text} {rest : List Text} {kind : ListKind} {text : Option Text}
      {attributes : Attributes} {forest front children children' after : List Branch} :
    item? block.firstLine = some (kind, first) →
    Opens kind.tag forest front text attributes children →
    Derives stash (.items (itemBodies kind block.lines)) children children' →
    Derives stash (.blocks rest) (front ++ [.node kind.tag text attributes children']) after →
    Derives stash (.blocks (block :: rest)) forest after
  | quote {block : Text} {rest : List Text} {text : Option Text} {attributes : Attributes}
      {forest front children children' after : List Branch} :
    (quoted? block.firstLine).isSome = true →
    Opens "blockquote" forest front text attributes children →
    Derives stash (.blocks (unquote block).blocks) children children' →
    Derives stash (.blocks rest) (front ++ [.node "blockquote" text attributes children']) after →
    Derives stash (.blocks (block :: rest)) forest after
  | stash {block : Text} {rest : List Text} {fragment : Stash.Fragment}
      {forest after : List Branch} :
    stash.resolve? block = some fragment →
    Derives stash (.blocks rest)
      (forest ++ [codeBranch (languageClass fragment.language) fragment.code]) after →
    Derives stash (.blocks (block :: rest)) forest after
  | paragraph {block : Text} {rest : List Text} {forest after : List Branch} :
    paragraphText block ≠ [] →
    Derives stash (.blocks rest) (forest ++ [.node "p" (some (paragraphText block)) {} []]) after →
    Derives stash (.blocks (block :: rest)) forest after
  | nothing {block : Text} {rest : List Text} {forest after : List Branch} :
    paragraphText block = [] → Derives stash (.blocks rest) forest after →
    Derives stash (.blocks (block :: rest)) forest after
  | noItem {items : List Branch} : Derives stash (.items []) items items
  | tight {body : List Text} {rest : List (List Text)} {text : Option Text}
      {attributes : Attributes} {items after : List Branch} :
    Derives stash (.blocks (Text.joinLines body).blocks) [] [.node "p" text attributes []] →
    Derives stash (.items rest) (items ++ [.node "li" text {} []]) after →
    Derives stash (.items (body :: rest)) items after
  | loose {body : List Text} {rest : List (List Text)} {items inside after : List Branch} :
    Derives stash (.blocks (Text.joinLines body).blocks) [] inside →
    Derives stash (.items rest) (items ++ [.node "li" none {} inside]) after →
    Derives stash (.items (body :: rest)) items after

def Derived (bound : Nat) (parser : Reparse) : Prop :=
  ∀ {session : Session} {parent : NodeId} {queue : List Text} {after : Session},
    session.tree.Ordered → parent < session.tree.size → weight queue < bound →
    parser session parent queue = .ok after →
    ∃ tree, after = session.setTree tree ∧ Grows parent session.tree tree ∧
      Derives session.stash (.blocks queue) (session.tree.branches parent) (tree.branches parent)

def Steps (session : Session) (parent : NodeId) (block : Text) (rest : List Text) (after : Session)
    (queue : List Text) : Prop :=
  ∀ forest : List Branch,
    Derives session.stash (.blocks queue) (after.tree.branches parent) forest →
    Derives session.stash (.blocks (block :: rest)) (session.tree.branches parent) forest

variable {parser : Reparse} {session after : Session} {parent : NodeId} {block : Text}
  {rest queue : List Text} {tree : Tree}

/-! Handlers that parse no text again. -/

theorem empty_steps (accepted : empty.accepts session parent block = true)
    (ran : empty.run parser session parent block rest = .ok (.handled after queue)) :
    Steps session parent block rest after queue := by
  cases ran
  have either : block.isBlank = true ∨ block.head? = some '\n' := by
    simpa [empty] using accepted
  exact fun _ => .empty either

theorem branches_withCode (ordered : tree.Ordered) (valid : parent < tree.size) (code : Text) :
    (withCode tree parent code).branches parent = tree.branches parent ++ [codeBranch {} code] := by
  let pre : Element := { tag := "pre" }
  let inner : Element := { tag := "code", text := some code }
  have ordered' : (tree.attached parent pre).Ordered := ordered.attached valid rfl
  have within : tree.size < (tree.attached parent pre).size := Tree.size_lt_attached tree parent pre
  have grown : Grows tree.size (tree.attached parent pre) (withCode tree parent code) :=
    .attached ordered' within rfl (List.nil_subset _)
  have written : (withCode tree parent code).branches tree.size =
      (tree.attached parent pre).branches tree.size ++ [.node "code" (some code) {} []] :=
    ordered'.branches_attached within rfl
  rw [grown.branches_inside ordered' (Tree.childrenOf_attached valid) (Tree.get?_attached_self valid),
    ordered.shown_attached valid rfl, written, ordered.branches_attached_self valid rfl]
  rfl

theorem paragraph_steps (ordered : session.tree.Ordered) (valid : parent < session.tree.size)
    (ran : paragraph.run parser session parent block rest = .ok (.handled after queue)) :
    Steps session parent block rest after queue := by
  intro forest
  by_cases none : paragraphText block = []
  · simp only [paragraph, none, if_true] at ran
    cases ran
    exact .nothing none
  · simp only [paragraph, none, if_false] at ran
    obtain ⟨made, attached, ran⟩ := exists_of_bind ran
    cases (Tree.attach_eq_ok valid).symm.trans attached
    cases ran
    intro derived
    change Derives _ _ ((session.tree.attached parent _).branches parent) _ at derived
    rw [ordered.branches_attached valid rfl] at derived
    exact .paragraph none derived

theorem links_withCode (valid : parent < tree.size) (code : Text) :
    (withCode tree parent code).childrenOf parent = tree.childrenOf parent ++ [tree.size] ∧
      (withCode tree parent code).get? tree.size =
        some { tag := "pre", children := [tree.size + 1], parent := some parent } ∧
      (withCode tree parent code).get? (tree.size + 1) =
        some { tag := "code", text := some code, parent := some tree.size } := by
  let pre : Element := { tag := "pre" }
  have size : (tree.attached parent pre).size = tree.size + 1 := Tree.size_attached
  have outer : tree.size < (tree.attached parent pre).size := Tree.size_lt_attached tree parent pre
  refine ⟨?_, ?_, ?_⟩
  · rw [withCode, Tree.childrenOf_attached_of_ne outer rfl (Nat.ne_of_lt valid),
      Tree.childrenOf_attached valid]
  · rw [withCode, Tree.get?_attached_parent (Tree.get?_attached_self valid), size]
    rfl
  · rw [withCode, ← size]
    exact Tree.get?_attached_self outer

theorem branches_classed (ordered : tree.Ordered) (valid : parent < tree.size) (code value : Text) :
    ((withCode tree parent code).modify (tree.size + 1) fun element =>
      { element with attributes := element.attributes.insert "class" value }).branches parent =
      tree.branches parent ++ [codeBranch (({} : Attributes).insert "class" value) code] := by
  let change (element : Element) : Element :=
    { element with attributes := element.attributes.insert "class" value }
  have keeps : Tree.KeepsLinks change := ⟨fun _ => rfl, fun _ => rfl⟩
  have ordered' := (grows_withCode ordered valid code).ordered
  obtain ⟨children, found, found'⟩ := links_withCode valid code
  have alone : (withCode tree parent code).branches (tree.size + 1) = [] := by
    rw [ordered'.branches_eq, Tree.childrenOf_eq found']
    rfl
  have plain := branches_withCode ordered valid code
  rw [ordered'.branches_of_childrenOf children found] at plain
  have front := List.append_inj_left' plain rfl
  have changed := ordered'.branches_modify_grandchild keeps children found
    (Tree.childrenOf_eq found) found'
  rw [front, alone] at changed
  exact changed

theorem stash_steps (ordered : session.tree.Ordered) (valid : parent < session.tree.size)
    (ran : stash.run parser session parent block rest = .ok (.handled after queue)) :
    Steps session parent block rest after queue := by
  intro forest
  unfold stash at ran
  simp only at ran
  split at ran
  · cases ran
  · next fragment found =>
    rw [append_code_eq_ok valid] at ran
    cases language : fragment.language with
    | none =>
      simp only [language] at ran
      cases ran
      intro derived
      change Derives _ _ ((withCode session.tree parent fragment.code).branches parent) _ at derived
      rw [branches_withCode ordered valid] at derived
      exact .stash found (language ▸ derived)
    | some name =>
      simp only [language] at ran
      obtain ⟨tree, written, ran⟩ := exists_of_bind ran
      cases ran
      intro derived
      have outside : session.tree.size + 1 < (withCode session.tree parent fragment.code).size := by
        simp [withCode]
      cases (Tree.update_eq_ok outside).symm.trans written
      change Derives _ _ (Tree.branches (Tree.modify _ _ _) parent) _ at derived
      rw [branches_classed ordered valid] at derived
      exact .stash found (language ▸ derived)

theorem exists_codeAtEnd (ordered : tree.Ordered) (ends : EndsInCode (tree.branches parent)) :
    ∃ code, CodeAtEnd tree parent code := by
  obtain ⟨front, text, attributes, code, others, same, tag⟩ := ends
  cases atEnd : (tree.childrenOf parent).getLast? with
  | none =>
    rw [ordered.branches_eq, List.getLast?_eq_none_iff.1 atEnd] at same
    exact absurd same (by simp [Tree.shown])
  | some pre =>
    obtain ⟨before, children⟩ := List.getLast?_eq_some_iff.1 atEnd
    obtain ⟨outer, found⟩ := Tree.exists_get? (ordered.child_lt_size (List.mem_of_getLast? atEnd))
    rw [ordered.branches_of_childrenOf children found] at same
    have last := List.append_inj_right' same rfl
    simp only [Tree.shown_nil, List.cons.injEq, Branch.node.injEq, and_true] at last
    obtain ⟨outerTag, -, -, inside⟩ := last
    cases below : outer.children with
    | nil =>
      rw [ordered.branches_eq, Tree.childrenOf_eq found, below] at inside
      cases inside
    | cons first rest =>
      have children' : tree.childrenOf pre = [] ++ first :: rest := (Tree.childrenOf_eq found).trans below
      have member : first ∈ tree.childrenOf pre := children' ▸ List.mem_cons_self
      obtain ⟨inner, found'⟩ := Tree.exists_get? (ordered.child_lt_size member)
      rw [ordered.branches_of_childrenOf children' found'] at inside
      cases inside
      have head : outer.children.head? = some first := by rw [below, List.head?_cons]
      exact ⟨first, pre, outer, inner, atEnd, found, outerTag, head, found', tag⟩

theorem indentedCode_steps (ordered : session.tree.Ordered) (valid : parent < session.tree.size)
    (accepted : indentedCode.accepts session parent block = true)
    (ran : indentedCode.run parser session parent block rest = .ok (.handled after queue)) :
    Steps session parent block rest after queue := by
  intro forest
  obtain ⟨found, last, placed⟩ := exists_lastCode? ordered.closed valid
  cases found with
  | none =>
    have apart : ¬EndsInCode (session.tree.branches parent) := by
      intro ends
      obtain ⟨code, atEnd⟩ := exists_codeAtEnd ordered ends
      cases (placed code).2 atEnd
    cases (indentedCode_run_new valid last rest).symm.trans ran
    intro derived
    change Derives _ _ ((withCode session.tree parent (codeOf block)).branches parent) _ at derived
    rw [branches_withCode ordered valid] at derived
    exact .newCode accepted apart derived
  | some code =>
    obtain ⟨pre, outer, inner, atEnd, found, outerTag, first, found', innerTag⟩ := (placed code).1 rfl
    obtain ⟨front, children⟩ := List.getLast?_eq_some_iff.1 atEnd
    obtain ⟨others, inside⟩ := List.head?_eq_some_iff.1 first
    cases (indentedCode_run_more (Tree.lt_size_of_get? found') last rest).symm.trans ran
    intro derived
    have below : session.tree.childrenOf pre = [] ++ code :: others :=
      (Tree.childrenOf_eq found).trans inside
    change Derives _ _ ((session.tree.modify code (moreCode (codeOf block))).branches parent) _
      at derived
    rw [ordered.branches_modify_grandchild (keepsLinks_moreCode _) children found below found',
      outerTag] at derived
    rw [ordered.branches_of_childrenOf children found, outerTag,
      ordered.branches_of_childrenOf below found', innerTag]
    simp only [moreCode, innerTag] at derived
    exact .moreCode accepted derived

end Tracemark.Grammar
