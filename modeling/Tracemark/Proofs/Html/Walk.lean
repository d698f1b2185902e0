import Tracemark.Proofs.Html.Reading
import Tracemark.Proofs.Tree.Acyclic
import Tracemark.Proofs.Tree.Branches

/-! Documents as walks over a tree.

A walk goes through elements in order and into each before the next. It tells a tag on its way in and
one on its way out, or one tag for an element that closes itself. A written document is read as the walk
over the children of the root: as these tags, with the attributes and the text of each element, and with
no more than the line feeds of the layout between them.
-/

set_option autoImplicit false

namespace Tracemark.Html

variable {tree : Tree} {ownLine : Bool} {id : NodeId} {ids above : List NodeId} {element : Element}
  {pieces : List Piece}

def isSingle (element : Element) : Bool :=
  element.text.isNone && element.children.isEmpty && isVoid element.tag

/-- The tags of some elements and all below them, with what is read behind each tag. -/
inductive Walks (tree : Tree) : Bool → List NodeId → List Piece → Prop
  | done {ownLine : Bool} : Walks tree ownLine [] []
  | single {ownLine : Bool} {id : NodeId} {rest : List NodeId} {element : Element}
      {later : List Piece} : tree.get? id = some element → isSingle element = true →
      Walks tree ownLine rest later →
      Walks tree ownLine (id :: rest)
        (⟨.single element.tag element.attributes, lineEnd ownLine⟩ :: later)
  | around {ownLine : Bool} {id : NodeId} {rest : List NodeId} {element : Element}
      {inner later : List Piece} : tree.get? id = some element → isSingle element = false →
      Walks tree (element.tag != "pre") element.children inner → Walks tree ownLine rest later →
      Walks tree ownLine (id :: rest)
        (⟨.opened element.tag element.attributes,
            element.text.getD [] ++ lineEnd (!element.children.isEmpty && element.tag != "pre")⟩ ::
          inner ++ ⟨.closed element.tag, lineEnd ownLine⟩ :: later)

def Named (tree : Tree) : Prop :=
  ∀ ⦃id : NodeId⦄ ⦃element : Element⦄, tree.get? id = some element →
    ∀ name ∈ element.tag :: element.attributes.keys, isPlain name = true

theorem Walks.plain (named : Named tree) (walks : Walks tree ownLine ids pieces) : Plain pieces := by
  induction walks with
  | done => exact nofun
  | single found _ _ ih => exact List.forall_mem_cons.2 ⟨named found, ih⟩
  | @around _ _ _ element _ _ found _ _ _ inside behind =>
    have opened := named found
    have closed : ∀ name ∈ [element.tag], isPlain name = true :=
      List.forall_mem_singleton.2 (opened _ List.mem_cons_self)
    exact List.forall_mem_append.2
      ⟨List.forall_mem_cons.2 ⟨opened, inside⟩, List.forall_mem_cons.2 ⟨closed, behind⟩⟩

/-! What is written of an element. -/

theorem written_cons (piece : Piece) (rest : List Piece) :
    written (piece :: rest) = '<' :: piece.tag.body ++ '>' :: escape piece.data ++ written rest :=
  rfl

theorem written_append (first second : List Piece) :
    written (first ++ second) = written first ++ written second :=
  List.flatMap_append

theorem escape_append (first second : Text) : escape (first ++ second) = escape first ++ escape second :=
  List.flatMap_append

theorem escape_lineEnd (ownLine : Bool) : escape (lineEnd ownLine) = lineEnd ownLine := by
  cases ownLine <;> rfl

variable {tag : String} {text : Option Text} {attributes : Attributes} {children : List Branch}

theorem branch_single (single : (text.isNone && children.isEmpty && isVoid tag) = true) :
    branch ownLine (.node tag text attributes children) =
      written [⟨.single tag attributes, lineEnd ownLine⟩] := by
  rw [branch, if_pos single]
  simp [written, opening, Tag.body, escape_lineEnd]

theorem branch_around {inner : List Piece}
    (around : (text.isNone && children.isEmpty && isVoid tag) = false)
    (inside : branches (tag != "pre") children = written inner) :
    branch ownLine (.node tag text attributes children) =
      written (⟨.opened tag attributes,
          text.getD [] ++ lineEnd (!children.isEmpty && tag != "pre")⟩ ::
        inner ++ [⟨.closed tag, lineEnd ownLine⟩]) := by
  rw [branch, if_neg (by rw [around]; exact Bool.false_ne_true), inside, List.cons_append, written_cons,
    written_append]
  simp [written, opening, closing, Tag.body, escape_append, escape_lineEnd]

/-! The walk over a tree. -/

/-- The branch at an element is not cut off. All elements below it are written, as the walk over them
tells. -/
def Whole (tree : Tree) (depth : Nat) (id : NodeId) : Prop :=
  ∃ element shown, tree.get? id = some element ∧
    tree.branch? depth id = some (.node element.tag element.text element.attributes shown) ∧
    shown.isEmpty = element.children.isEmpty ∧
    ∀ ownLine, ∃ inner, Walks tree ownLine element.children inner ∧
      branches ownLine shown = written inner

theorem exists_walks_of_whole {depth : Nat} (whole : ∀ id ∈ ids, Whole tree depth id)
    (ownLine : Bool) : ∃ pieces, Walks tree ownLine ids pieces ∧
      branches ownLine (ids.filterMap (tree.branch? depth)) = written pieces := by
  induction ids with
  | nil => exact ⟨[], .done, rfl⟩
  | cons id rest ih =>
    rw [List.forall_mem_cons] at whole
    obtain ⟨⟨element, shown, found, branch, empty, below⟩, whole⟩ := whole
    obtain ⟨later, behind, told⟩ := ih whole
    rw [List.filterMap_cons_some branch, branches, told]
    cases single : isSingle element with
    | true =>
      refine ⟨_, .single found single behind, ?_⟩
      rw [isSingle, ← empty] at single
      rw [branch_single single, ← written_append]
      rfl
    | false =>
      obtain ⟨inner, walks, same⟩ := below (element.tag != "pre")
      refine ⟨_, .around found single walks behind, ?_⟩
      rw [isSingle, ← empty] at single
      rw [branch_around single same, ← written_append, empty]
      simp

theorem whole_of_chain (closed : tree.Closed) (acyclic : tree.Acyclic) {depth : Nat}
    (chain : tree.Chain id above) (enough : tree.size ≤ depth + above.length + 1) :
    Whole tree depth id := by
  induction depth generalizing id above with
  | zero =>
    obtain ⟨element, found⟩ := Tree.exists_get? (chain.inside id List.mem_cons_self)
    -- The chain names all elements already.
    have leaf : element.children = [] := by
      refine List.eq_nil_iff_forall_not_mem.2 fun child member => ?_
      rw [← Tree.childrenOf_eq found] at member
      have longer := (chain.deeper closed acyclic member).length_lt
      rw [List.length_cons] at longer
      omega
    refine ⟨element, [], found, ?_, ?_, fun ownLine => ⟨[], ?_, rfl⟩⟩
    · rw [Tree.branch?, found]
      rfl
    · simp [leaf]
    · rw [leaf]
      exact .done
  | succ depth ih =>
    obtain ⟨element, found⟩ := Tree.exists_get? (chain.inside id List.mem_cons_self)
    have below : ∀ child ∈ element.children, Whole tree depth child := by
      intro child member
      rw [← Tree.childrenOf_eq found] at member
      apply ih (chain.deeper closed acyclic member)
      rw [List.length_cons]
      omega
    refine ⟨element, element.children.filterMap (tree.branch? depth), found, ?_, ?_,
      exists_walks_of_whole below⟩
    · rw [Tree.branch?, found]
      rfl
    · cases children : element.children with
      | nil => rfl
      | cons child rest =>
        obtain ⟨_, _, _, branch, _⟩ := below child (children ▸ List.mem_cons_self)
        rw [List.filterMap_cons_some branch]
        rfl

/-- A written document is read as the walk over the tree, whatever texts and values it holds. Of the
links no more is asked than that they lead to elements of the tree and in no circle. -/
theorem exists_walks_write (closed : tree.Closed) (acyclic : tree.Acyclic) (named : Named tree) :
    ∃ pieces, read? (write tree) = some pieces ∧
      Walks tree true (tree.childrenOf Tree.root) pieces := by
  have told : ∃ pieces, Walks tree true (tree.childrenOf Tree.root) pieces ∧
      write tree = written pieces := by
    rw [write, Tree.forest, Tree.branches]
    rcases Nat.lt_or_ge Tree.root tree.size with inside | outside
    · have whole : Whole tree tree.size Tree.root :=
        whole_of_chain closed acyclic (Tree.chain_self inside) (by omega)
      obtain ⟨element, shown, found, branch, -, below⟩ := whole
      obtain ⟨pieces, walks, same⟩ := below true
      rw [← Tree.childrenOf_eq found] at walks
      rw [branch]
      exact ⟨pieces, walks, same⟩
    · have none := Tree.get?_eq_none outside
      rw [Tree.branch?_of_outside _ outside, Tree.childrenOf, none]
      exact ⟨[], .done, rfl⟩
  obtain ⟨pieces, walks, same⟩ := told
  exact ⟨pieces, same ▸ read?_written (walks.plain named), walks⟩

/-- Marks in a text and in a value, an element older than its parent, an element that closes itself, and
children inside a line. -/
theorem exists_walks_write_marked :
    let tree : Tree := ⟨[
      { tag := "div", children := [2, 4] },
      { tag := "p", text := some "a < \"b\" & c".toList, attributes := ⟨[("title", "'/>'".toList)]⟩,
        parent := some 2 },
      { tag := "blockquote", children := [1], parent := some 0 },
      { tag := "code", text := some "</pre>\n&amp;".toList, parent := some 4 },
      { tag := "pre", children := [3, 5], parent := some 0 },
      { tag := "br", parent := some 4 }]⟩
    tree.Closed ∧ tree.Acyclic ∧ Named tree ∧ ∃ pieces, read? (write tree) = some pieces ∧
      Walks tree true (tree.childrenOf Tree.root) pieces := by
  intro tree
  have held {id : NodeId} {element : Element} (found : tree.get? id = some element) :
      element ∈ tree.elements := List.mem_of_getElem? found
  have closed : tree.Closed := by
    constructor
    · intro id element child found member
      have all : ∀ element ∈ tree.elements, ∀ child ∈ element.children, child < tree.size := by decide
      exact all element (held found) child member
    · intro id element parent found named
      have all : ∀ element ∈ tree.elements, ∀ parent ∈ element.parent, parent < tree.size := by decide
      exact all element (held found) parent named
  have acyclic : tree.Acyclic := by
    let rank (id : NodeId) : Nat := if id = 0 then 0 else if id ∈ [2, 4] then 1 else 2
    have all : ∀ id < tree.size, ∀ child ∈ tree.childrenOf id, rank id < rank child := by decide
    apply Tree.acyclic_of_rank rank
    intro id child member
    obtain ⟨element, found, -⟩ := Tree.mem_childrenOf_iff.1 member
    exact all id (Tree.lt_size_of_get? found) child member
  have named : Named tree := by
    intro id element found
    have all : ∀ element ∈ tree.elements, ∀ name ∈ element.tag :: element.attributes.keys,
        isPlain name = true := by decide
    exact all element (held found)
  exact ⟨closed, acyclic, named, exists_walks_write closed acyclic named⟩

end Tracemark.Html
