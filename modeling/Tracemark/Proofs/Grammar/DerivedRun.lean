import Tracemark.Proofs.Grammar.Derivation

/-! Every run of the grammar has a derivation.

Handlers that have text parsed again rely on what the parser makes of less than their block. An item
is the last child of its list while it is parsed and tightened, so nothing but the last branch of the
list changes.
-/

set_option autoImplicit false

namespace Tracemark

def Handlers.parseTexts (handlers : Handlers) (session : Session) (parent : NodeId)
    (texts : List Text) : Except Fault Session :=
  texts.foldlM (fun session text => handlers.parseText session parent text) session

namespace Grammar

open Tracemark.Dispatch (offer run weight weight_append weight_cons weight_nil)
open Tracemark.LineShape (Cut cut? item?)
open Tracemark.Tree (Grows)

variable {parser : Reparse} {session after : Session} {parent : NodeId} {block : Text}
  {rest queue : List Text} {tree : Tree} {bound : Nat}

/-! Cuts. -/

theorem exists_of_writeAt {α : Type} {cut : Cut α} {element : Element}
    (derived : Derived (weight [block]) parser) (shorter : Shorter cut block)
    (leaf : element.children = []) (ordered : session.tree.Ordered)
    (valid : parent < session.tree.size)
    (ran : writeAt cut element parser session parent rest = .ok (.handled after queue)) :
    ∃ middle, Derives session.stash (.blocks (putBack cut.before [])) (session.tree.branches parent)
        middle ∧
      after.tree.branches parent =
        middle ++ [.node element.tag element.text element.attributes []] ∧
      queue = putBack cut.behind rest := by
  by_cases blank : cut.before.isBlank = true
  · simp only [writeAt, blank, if_true] at ran
    change (session.tree.attach parent element).bind _ = _ at ran
    rw [Tree.attach_eq_ok valid] at ran
    cases ran
    refine ⟨_, ?_, ordered.branches_attached valid leaf, rfl⟩
    rw [putBack, if_pos blank]
    exact .done
  · simp only [writeAt, blank, Bool.false_eq_true, if_false] at ran
    obtain ⟨before, parsed, ran⟩ := exists_of_bind ran
    obtain ⟨tree, rfl, grown, derives⟩ :=
      derived ordered valid (shorter.before.resolve_left blank) parsed
    have valid' : parent < tree.size := grown.lt_size valid
    change (tree.attach parent element).bind _ = _ at ran
    rw [Tree.attach_eq_ok valid'] at ran
    cases ran
    -- Whatever was parsed before the cut, the element is attached behind that.
    refine ⟨_, ?_, grown.ordered.branches_attached valid' leaf, rfl⟩
    rw [putBack, if_neg blank]
    exact derives

theorem heading_steps (derived : Derived (weight [block]) parser) (ordered : session.tree.Ordered)
    (valid : parent < session.tree.size)
    (ran : heading.run parser session parent block rest = .ok (.handled after queue)) :
    Steps session parent block rest after queue := by
  intro forest behind
  simp only [heading] at ran
  split at ran
  · cases ran
  · next cut found =>
    obtain ⟨middle, front, written, rfl⟩ :=
      exists_of_writeAt derived (shorter_of_cut? found) rfl ordered valid ran
    rw [written] at behind
    exact .heading found front behind

theorem rule_steps (derived : Derived (weight [block]) parser) (ordered : session.tree.Ordered)
    (valid : parent < session.tree.size)
    (ran : rule.run parser session parent block rest = .ok (.handled after queue)) :
    Steps session parent block rest after queue := by
  intro forest behind
  simp only [rule] at ran
  split at ran
  · cases ran
  · next cut found =>
    obtain ⟨middle, front, written, rfl⟩ :=
      exists_of_writeAt derived (shorter_of_cut? found) rfl ordered valid ran
    rw [written] at behind
    exact .rule found front behind

/-! Containers. -/

theorem exists_of_openContainer {tag : String} {node : NodeId} {made : Tree}
    (ordered : tree.Ordered) (valid : parent < tree.size)
    (ran : openContainer tree parent tag = .ok (node, made)) :
    ∃ front element, made.childrenOf parent = front ++ [node] ∧ made.get? node = some element ∧
      element.tag = tag ∧ Grows parent tree made ∧
      Opens tag (tree.branches parent) (made.shown front) element.text element.attributes
        (made.branches node) := by
  have fresh (apart : ∀ last ∈ (tree.branches parent).getLast?, last.tag ≠ tag)
      (ran : tree.append parent tag = .ok (node, made)) :
      ∃ front element, made.childrenOf parent = front ++ [node] ∧ made.get? node = some element ∧
        element.tag = tag ∧ Grows parent tree made ∧
        Opens tag (tree.branches parent) (made.shown front) element.text element.attributes
          (made.branches node) := by
    cases (Tree.attach_eq_ok valid).symm.trans ran
    refine ⟨_, _, Tree.childrenOf_attached valid, Tree.get?_attached_self valid, rfl,
      .attached ordered valid rfl (List.nil_subset _), ?_⟩
    rw [ordered.shown_attached valid rfl, ordered.branches_attached_self valid rfl]
    exact .fresh apart
  cases atEnd : (tree.childrenOf parent).getLast? with
  | none =>
    simp only [openContainer, Tree.lastChild?_eq_ok valid, atEnd] at ran
    apply fresh _ ran
    rw [ordered.branches_eq, List.getLast?_eq_none_iff.1 atEnd]
    simp
  | some sibling =>
    obtain ⟨front, children⟩ := List.getLast?_eq_some_iff.1 atEnd
    have held : sibling < tree.size := ordered.child_lt_size (List.mem_of_getLast? atEnd)
    obtain ⟨element, found⟩ := Tree.exists_get? held
    have shown := ordered.branches_of_childrenOf children found
    simp only [openContainer, Tree.lastChild?_eq_ok valid, atEnd, Tree.element_eq_ok found, bind,
      Except.bind] at ran
    by_cases same : element.tag = tag
    · simp only [same, if_true] at ran
      cases ran
      refine ⟨front, element, children, found, same, .refl ordered, ?_⟩
      rw [shown, same]
      exact .last
    · simp only [same, if_false] at ran
      apply fresh _ ran
      intro last member
      rw [shown, Tree.shown_nil, List.getLast?_concat, Option.mem_some_iff] at member
      exact member ▸ same

theorem blockquote_steps (derived : Derived (weight [block]) parser)
    (ordered : session.tree.Ordered) (valid : parent < session.tree.size)
    (accepted : blockquote.accepts session parent block = true)
    (ran : blockquote.run parser session parent block rest = .ok (.handled after queue)) :
    Steps session parent block rest after queue := by
  intro forest behind
  obtain ⟨⟨node, made⟩, opened, ran⟩ := exists_of_bind ran
  obtain ⟨front, element, children, found, tag, grown, opens⟩ :=
    exists_of_openContainer ordered valid opened
  obtain ⟨inner, parsed, ran⟩ := exists_of_bind ran
  cases ran
  have held : node < made.size := Tree.lt_size_of_get? found
  obtain ⟨tree, rfl, grown', inside⟩ :=
    derived grown.ordered held (weight_unquote_lt accepted) parsed
  change Derives _ _ (tree.branches parent) _ at behind
  rw [grown'.branches_inside grown.ordered children found, tag] at behind
  exact .quote accepted opens inside behind

/-- Tightening takes the only paragraph of an item away, and leaves an item alone that holds anything
else. -/
theorem cases_of_tighten {item : NodeId} {tight : Tree} (ordered : tree.Ordered)
    (valid : item < tree.size) (ran : tighten tree item = .ok tight) :
    (tight = tree ∧ ∀ text attributes, tree.branches item ≠ [.node "p" text attributes []]) ∨
    ∃ only element, tree.childrenOf item = [only] ∧ tree.get? only = some element ∧
      element.tag = "p" ∧ element.children = [] ∧ tight = untied tree item only element.text := by
  have length := ordered.length_branches item
  unfold tighten at ran
  rw [Tree.children_eq_ok valid] at ran
  match inside : tree.childrenOf item with
  | [] =>
    simp only [inside] at ran length
    cases ran
    exact .inl ⟨rfl, fun _ _ same => absurd length (by simp [same])⟩
  | _ :: _ :: _ =>
    simp only [inside] at ran length
    cases ran
    exact .inl ⟨rfl, fun _ _ same => absurd length (by simp [same])⟩
  | [only] =>
    have member : only ∈ tree.childrenOf item := inside ▸ List.mem_singleton_self only
    obtain ⟨element, found⟩ := Tree.exists_get? (ordered.child_lt_size member)
    obtain ⟨above, found', member'⟩ := Tree.mem_childrenOf_iff.1 member
    obtain ⟨below, here, named⟩ := ordered.parent_of_mem found' member'
    cases found.symm.trans here
    simp only [inside, bind, Except.bind, Tree.element_eq_ok found] at ran
    by_cases other : element.tag ≠ "p" ∨ element.children ≠ []
    · simp only [other, if_true] at ran
      cases ran
      refine .inl ⟨rfl, fun text attributes same => ?_⟩
      rw [ordered.branches_eq, inside, Tree.shown_singleton found] at same
      have single := (List.cons.inj same).1
      injection single with tag _ _ none
      have alone := ordered.length_branches only
      rw [none, Tree.childrenOf_eq found] at alone
      rcases other with apart | some_child
      · exact apart tag
      · exact some_child (List.eq_nil_of_length_eq_zero alone.symm)
    · simp only [other, if_false] at ran
      rw [not_or, not_ne_iff, not_ne_iff] at other
      cases (untie_eq_ok valid found named).symm.trans ran
      exact .inr ⟨only, element, rfl, found, other.1, other.2, rfl⟩

theorem branches_untied {item only : NodeId} {front : List NodeId} {element : Element}
    (text : Option Text) (ordered : tree.Ordered) (children : tree.childrenOf parent = front ++ [item])
    (found : tree.get? item = some element) (inside : tree.childrenOf item = [only]) :
    (untied tree item only text).branches parent =
      tree.shown front ++ [.node element.tag text element.attributes []] := by
  have member : only ∈ tree.childrenOf item := inside ▸ List.mem_singleton_self only
  have member' : item ∈ tree.childrenOf parent := by simp [children]
  have below : item < only := ordered.lt_of_mem_childrenOf member
  have above : parent < item := ordered.lt_of_mem_childrenOf member'
  have different : only ≠ item := Nat.ne_of_gt below
  let cleared : Tree := tree.modify only fun element => { element with text := none }
  have links (id : NodeId) : cleared.childrenOf id = tree.childrenOf id :=
    Tree.childrenOf_modify (keepsLinks_text none).children
  have ordered' : (untied tree item only text).Ordered := by
    apply Tree.Ordered.modify _ (keepsLinks_text text)
    apply Tree.Ordered.detached (ordered.modify (keepsLinks_text none)) _ different
    rwa [links]
  have detached (id : NodeId) : (untied tree item only text).childrenOf id =
      if id = item then (tree.childrenOf id).filter (· ≠ only) else tree.childrenOf id := by
    rw [untied, Tree.childrenOf_modify (keepsLinks_text text).children,
      Tree.childrenOf_detached different, links]
  have children' : (untied tree item only text).childrenOf parent = front ++ [item] := by
    rw [detached, if_neg (Nat.ne_of_lt above), children]
  have found' : (untied tree item only text).get? item =
      some { element with text, children := element.children.filter (· ≠ only) } := by
    rw [untied, Tree.get?_modify_self, Tree.get?_detached different, Tree.get?_modify_of_ne
      (Ne.symm different), found]
    simp [Ne.symm different]
  have alone : (untied tree item only text).branches item = [] := by
    rw [ordered'.branches_eq, detached, if_pos rfl, inside]
    simp [Tree.shown]
  rw [Tree.branches_of_agree ordered ordered' children children' found', alone]
  · rfl
  · intro id _ _ outside
    have apart : id ≠ item := fun same => outside (same ▸ .here)
    have apart' : id ≠ only := fun same => outside (same ▸ Tree.Under.here.deeper member)
    rw [untied, Tree.get?_modify_of_ne apart, Tree.get?_detached_of_ne apart' apart,
      Tree.get?_modify_of_ne apart']

def tightened : List Branch → Branch
  | [.node tag text attributes []] =>
    if tag = "p" then .node "li" text {} [] else .node "li" none {} [.node tag text attributes []]
  | forest => .node "li" none {} forest

theorem tightened_paragraph (text : Option Text) (attributes : Attributes) :
    tightened [.node "p" text attributes []] = .node "li" text {} [] :=
  rfl

theorem tightened_of_ne {forest : List Branch}
    (other : ∀ text attributes, forest ≠ [.node "p" text attributes []]) :
    tightened forest = .node "li" none {} forest := by
  unfold tightened
  split
  · next tag text attributes =>
    rw [if_neg]
    rintro rfl
    exact other text attributes rfl
  · rfl

theorem branches_of_tighten {before filled tight : Tree} (ordered : before.Ordered)
    (valid : parent < before.size)
    (grown : Grows before.size (before.attached parent { tag := "li" }) filled)
    (ran : tighten filled before.size = .ok tight) : tight.branches parent =
      before.branches parent ++ [tightened (filled.branches before.size)] := by
  let made : Tree := before.attached parent { tag := "li" }
  have ordered' : made.Ordered := ordered.attached valid rfl
  have children : made.childrenOf parent = before.childrenOf parent ++ [before.size] :=
    Tree.childrenOf_attached valid
  have found : made.get? before.size = some { tag := "li", parent := some parent } :=
    Tree.get?_attached_self valid
  have held : before.size < filled.size := grown.lt_size (Tree.size_lt_attached _ _ _)
  have loose : filled.branches parent =
      before.branches parent ++ [.node "li" none {} (filled.branches before.size)] := by
    rw [grown.branches_inside ordered' children found, ordered.shown_attached valid rfl]
  rcases cases_of_tighten grown.ordered held ran with
    ⟨rfl, other⟩ | ⟨only, element, single, here, tag, leaf, rfl⟩
  · rw [loose, tightened_of_ne other]
  · have paragraph : filled.branches before.size = [.node "p" element.text element.attributes []] := by
      rw [grown.ordered.branches_eq, single, Tree.shown_singleton here, grown.ordered.branches_eq only,
        Tree.childrenOf_eq here, leaf, tag]
      rfl
    obtain ⟨item, found', itemTag, -, attributes⟩ := grown.exists_get?_top ordered' found
    have member : before.size ∈ made.childrenOf parent := children ▸ List.mem_concat_self
    have children' := (grown.childrenOf_above ordered' member).trans children
    rw [grown.ordered.branches_of_childrenOf children' found'] at loose
    rw [branches_untied element.text grown.ordered children' found' single,
      List.append_inj_left' loose rfl, itemTag, attributes, paragraph, tightened_paragraph]

theorem exists_tightened {before filled : Tree} (ordered : before.Ordered) (valid : parent < before.size)
    (grown : Grows before.size (before.attached parent { tag := "li" }) filled) :
    ∃ tight, tighten filled before.size = .ok tight ∧ Grows parent before tight := by
  have held : before.size < filled.size := grown.lt_size (Tree.size_lt_attached _ _ _)
  have whole : Grows parent before filled :=
    Grows.trans (.attached ordered valid rfl (List.nil_subset _))
      (grown.inside (Tree.getLast?_childrenOf_attached valid _)) valid
  have start : (Pairing.same (Session.new.setTree filled)).Paired filled filled :=
    Dispatch.paired_same grown.ordered
  obtain ⟨tight, _, tightened, -, -, keeps⟩ := tighten_paired start held
  exact ⟨tight, tightened, keeps (Nat.le_refl _) whole⟩

theorem item_steps {stash : Stash} {before filled tight : Tree} {body : List Text}
    {bodies : List (List Text)} {forest : List Branch} (ordered : before.Ordered)
    (valid : parent < before.size)
    (grown : Grows before.size (before.attached parent { tag := "li" }) filled)
    (inside : Derives stash (.blocks (Text.joinLines body).blocks) [] (filled.branches before.size))
    (ran : tighten filled before.size = .ok tight)
    (later : Derives stash (.items bodies) (tight.branches parent) forest) :
    Derives stash (.items (body :: bodies)) (before.branches parent) forest := by
  rw [branches_of_tighten ordered valid grown ran] at later
  by_cases paragraph : ∃ text attributes,
      filled.branches before.size = [.node "p" text attributes []]
  · obtain ⟨text, attributes, same⟩ := paragraph
    rw [same, tightened_paragraph] at later
    rw [same] at inside
    exact .tight inside later
  · rw [tightened_of_ne fun text attributes same => paragraph ⟨text, attributes, same⟩] at later
    exact .loose inside later

theorem writeItems_derives (derived : Derived bound parser) {bodies : List (List Text)}
    (light : ∀ body ∈ bodies, weight (Text.joinLines body).blocks < bound)
    (ordered : session.tree.Ordered) (valid : parent < session.tree.size)
    (ran : writeItems parser parent bodies session = .ok after) :
    ∃ tree, after = session.setTree tree ∧ Grows parent session.tree tree ∧
      Derives session.stash (.items bodies) (session.tree.branches parent) (tree.branches parent) := by
  induction bodies generalizing session with
  | nil =>
    cases ran
    exact ⟨_, rfl, .refl ordered, .noItem⟩
  | cons body rest ih =>
    obtain ⟨small, later⟩ := List.forall_mem_cons.1 light
    rw [writeItems] at ran
    obtain ⟨made, attached, ran⟩ := exists_of_bind ran
    cases (Tree.attach_eq_ok valid).symm.trans attached
    obtain ⟨inner, parsed, ran⟩ := exists_of_bind ran
    obtain ⟨tight, tightened, ran⟩ := exists_of_bind ran
    have held := Tree.size_lt_attached session.tree parent { tag := "li" }
    obtain ⟨filled, rfl, grown, inside⟩ :=
      derived (ordered.attached valid rfl) held small parsed
    change Derives _ _ (Tree.branches (Tree.attached _ _ _) _) _ at inside
    rw [ordered.branches_attached_self valid rfl] at inside
    obtain ⟨tight', tightened', whole⟩ := exists_tightened ordered valid grown
    cases tightened'.symm.trans tightened
    obtain ⟨tree, rfl, grown', derives⟩ := ih later whole.ordered (whole.lt_size valid) ran
    exact ⟨tree, rfl, whole.trans grown' valid, item_steps ordered valid grown inside tightened derives⟩

theorem list_steps (derived : Derived (weight [block]) parser) (ordered : session.tree.Ordered)
    (valid : parent < session.tree.size)
    (ran : list.run parser session parent block rest = .ok (.handled after queue)) :
    Steps session parent block rest after queue := by
  intro forest behind
  simp only [list] at ran
  split at ran
  · cases ran
  · next kind first marked =>
    obtain ⟨⟨node, made⟩, opened, ran⟩ := exists_of_bind ran
    obtain ⟨front, element, children, found, tag, grown, opens⟩ :=
      exists_of_openContainer ordered valid opened
    obtain ⟨inner, wrote, ran⟩ := exists_of_bind ran
    cases ran
    have held : node < made.size := Tree.lt_size_of_get? found
    obtain ⟨tree, rfl, grown', inside⟩ :=
      writeItems_derives derived (fun body member => weight_body_lt member) grown.ordered held wrote
    change Derives _ _ (tree.branches parent) _ at behind
    rw [grown'.branches_inside grown.ordered children found, tag] at behind
    exact .list marked opens inside behind

/-! Runs. -/

theorem members_steps (derived : Derived (weight [block]) parser) (ordered : session.tree.Ordered)
    (valid : parent < session.tree.size) {handler : Handler} (member : handler ∈ members)
    (accepted : handler.accepts session parent block = true)
    (ran : handler.run parser session parent block rest = .ok (.handled after queue)) :
    Steps session parent block rest after queue := by
  simp only [members, List.mem_cons, List.not_mem_nil, or_false] at member
  rcases member with rfl | rfl | rfl | rfl | rfl | rfl | rfl | rfl
  · exact empty_steps accepted ran
  · exact indentedCode_steps ordered valid accepted ran
  · exact heading_steps derived ordered valid ran
  · exact rule_steps derived ordered valid ran
  · exact list_steps derived ordered valid ran
  · exact blockquote_steps derived ordered valid accepted ran
  · exact stash_steps ordered valid ran
  · exact paragraph_steps ordered valid ran

/-- Where no handler declines what it accepts, the first that accepts a block takes it. -/
theorem exists_of_offer {handlers : List Handler}
    (takes : ∀ handler ∈ handlers, handler.accepts session parent block = true →
      ∀ other, handler.run parser session parent block rest ≠ .ok (.declined other))
    (ran : offer parser parent block rest handlers session = .ok (after, queue)) :
    (∃ handler ∈ handlers, handler.accepts session parent block = true ∧
      handler.run parser session parent block rest = .ok (.handled after queue)) ∨
    ∀ handler ∈ handlers, handler.accepts session parent block = false := by
  induction handlers with
  | nil => exact .inr (by simp)
  | cons handler others ih =>
    obtain ⟨taken, later⟩ := List.forall_mem_cons.1 takes
    rw [offer] at ran
    by_cases accepted : handler.accepts session parent block = true
    · simp only [accepted, if_true] at ran
      obtain ⟨outcome, done, ran⟩ := exists_of_bind ran
      cases outcome with
      | declined other => exact absurd done (taken accepted other)
      | handled session queue =>
        cases ran
        exact .inl ⟨handler, List.mem_cons_self, accepted, done⟩
    · simp only [accepted, Bool.false_eq_true, if_false] at ran
      rw [Bool.not_eq_true] at accepted
      rcases ih later ran with ⟨other, member, found⟩ | none
      · exact .inl ⟨other, List.mem_cons_of_mem _ member, found⟩
      · exact .inr (List.forall_mem_cons.2 ⟨accepted, none⟩)

theorem offer_steps {budget : Nat} (enough : weight [block] ≤ budget)
    (derived : Derived (weight [block]) (run members budget)) (ordered : session.tree.Ordered)
    (valid : parent < session.tree.size)
    (ran : offer (run members budget) parent block rest members session = .ok (after, queue)) :
    Steps session parent block rest after queue := by
  have takes : ∀ handler ∈ members, handler.accepts session parent block = true →
      ∀ other, handler.run (run members budget) session parent block rest ≠
        .ok (.declined other) := by
    intro handler member accepted other declined
    obtain ⟨_, _, _, -, -, -, taken⟩ := (members_lawful handler member).run accepted
      (Dispatch.run_follows_same session members_lawful enough enough) (Dispatch.paired_same ordered)
      (Nat.zero_le _) valid
    cases declined.symm.trans (taken rest).1
  rcases exists_of_offer takes ran with ⟨handler, member, accepted, taken⟩ | none
  · exact members_steps derived ordered valid member accepted taken
  · exact absurd (none paragraph (by simp [members])) nofun

/-- A run of the grammar has a derivation. -/
theorem run_derives {budget : Nat} (enough : bound ≤ budget) :
    Derived bound (run members budget) := by
  induction bound generalizing budget with
  | zero => exact fun _ _ light => absurd light (Nat.not_lt_zero _)
  | succ bound ih =>
    obtain ⟨budget, rfl⟩ := Nat.exists_eq_add_of_le' enough
    have inner : Derived bound (run members (budget + bound)) := ih (Nat.le_add_left _ _)
    intro session parent queue after ordered valid light ran
    cases queue with
    | nil =>
      cases ran
      exact ⟨_, rfl, .refl ordered, .done⟩
    | cons block rest =>
      rw [weight_cons] at light
      have small : weight [block] ≤ bound := by
        rw [weight_cons, weight_nil]
        omega
      have enough' : weight [block] ≤ budget + bound := Nat.le_trans small (Nat.le_add_left _ _)
      obtain ⟨⟨middle, queue⟩, offered, ran⟩ := exists_of_bind ran
      have steps := offer_steps enough'
        (fun ordered valid light => inner ordered valid (Nat.lt_of_lt_of_le light small))
        ordered valid offered
      obtain ⟨tree, put, grown, less, taken⟩ :=
        Dispatch.offer_grows session members_lawful ordered valid enough'
      cases (taken rest).symm.trans offered
      have light' : weight (put ++ rest) < bound := by
        rw [weight_append]
        rw [weight_cons, weight_nil] at less
        omega
      obtain ⟨tree', rfl, grown', derives⟩ :=
        inner grown.ordered (grown.lt_size valid) light' ran
      exact ⟨tree', rfl, grown.trans grown' valid, steps _ derives⟩

/-! Texts that are parsed one after another. -/

/-- The texts under a node are parsed as one queue of their blocks. -/
theorem parseTexts_eq_run (ordered : session.tree.Ordered) (valid : parent < session.tree.size)
    (texts : List Text) {budget : Nat} (enough : weight (texts.flatMap Text.blocks) < budget) :
    reference.parseTexts session parent texts =
      run members budget session parent (texts.flatMap Text.blocks) := by
  induction texts generalizing session with
  | nil =>
    obtain ⟨budget, rfl⟩ := Nat.exists_eq_add_of_le' enough
    rfl
  | cons text texts ih =>
    rw [List.flatMap_cons, weight_append] at enough
    have first : reference.parseText session parent text =
        run members budget session parent text.blocks :=
      parseText_eq_run ordered valid (by omega)
    obtain ⟨after, ran, grown⟩ := Dispatch.run_grows session members_lawful ordered valid
      (Nat.lt_of_le_of_lt (Nat.le_add_right _ _) enough)
    rw [List.flatMap_cons, Dispatch.run_append session members_lawful _ _ ordered valid
      (by rwa [weight_append]), ran]
    change (reference.parseText session parent text).bind _ = _
    rw [first, ran]
    exact ih grown.ordered (grown.lt_size valid) (by omega)

theorem parseTexts_derives (ordered : session.tree.Ordered) (valid : parent < session.tree.size)
    (texts : List Text) :
    ∃ tree, reference.parseTexts session parent texts = .ok (session.setTree tree) ∧
      Grows parent session.tree tree ∧
      Derives session.stash (.blocks (texts.flatMap Text.blocks)) (session.tree.branches parent)
        (tree.branches parent) := by
  have enough := Nat.lt_succ_self (weight (texts.flatMap Text.blocks))
  obtain ⟨after, ran, grown⟩ := Dispatch.run_grows session members_lawful ordered valid enough
  obtain ⟨tree, same, -, derives⟩ := run_derives (Nat.le_refl _) ordered valid enough ran
  cases same
  refine ⟨after, ?_, grown, derives⟩
  rw [parseTexts_eq_run ordered valid texts enough, ran]

end Grammar

end Tracemark
