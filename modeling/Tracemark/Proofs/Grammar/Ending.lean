import Tracemark.Proofs.Dispatch.Ending
import Tracemark.Proofs.Grammar.Actors

/-! Handlers of the grammar end.

Each of them takes the blocks that it accepts, wherever these stand in a closed tree. What it leaves of
the queue shows which part of a block it needed: at least one character each time.
-/

set_option autoImplicit false

namespace Tracemark.Grammar

open Tracemark.Dispatch (weight weight_cons weight_nil)
open Tracemark.LineShape (Cut cut? heading? isIndented item? quoted?)

variable {tree : Tree} {parent item : NodeId} {block : Text} {rest queue : List Text}
  {holds : Option Offsets.Tracker → Prop} {session : Session}

/-! What is left of a queue. -/

theorem remnant_putBack {head piece : Text} (some_char : head ≠ []) (same : block = head ++ piece)
    (rest : List Text) : Remnant block rest (putBack piece rest) := by
  unfold putBack
  split
  · exact .all
  · exact .part some_char same

theorem exists_head {front behind : List Text} (same : block.lines = front ++ behind)
    (some_line : front ≠ []) (some_line' : behind ≠ []) :
    ∃ head, head ≠ [] ∧ block = head ++ Text.joinLines behind := by
  refine ⟨Text.joinLines front ++ ['\n'], by simp, ?_⟩
  calc block = Text.joinLines (front ++ behind) := by rw [← same, Text.joinLines_lines]
    _ = Text.joinLines front ++ ['\n'] ++ Text.joinLines behind := by
      rw [Text.joinLines_append some_line some_line', List.append_assoc, List.singleton_append]

theorem remnant_empty (accepted : block.isBlank = true ∨ block.head? = some '\n') (rest : List Text) :
    Remnant block rest (putBack block.dropLeadingFeeds rest) := by
  rcases accepted with blank | feed
  · rw [putBack, if_pos (dropLeadingFeeds_isBlank blank)]
    exact .all
  · obtain ⟨others, rfl⟩ := List.head?_eq_some_iff.1 feed
    have same : ('\n' :: others) = ('\n' :: others.takeWhile (· = '\n')) ++
        Text.dropLeadingFeeds ('\n' :: others) := by
      rw [Text.dropLeadingFeeds, List.dropWhile_cons_of_pos (by decide), List.cons_append,
        List.takeWhile_append_dropWhile]
    exact remnant_putBack (List.cons_ne_nil _ _) same rest

theorem remnant_code (indented : isIndented block = true) (rest : List Text) :
    Remnant block rest (behindCode block ++ rest) := by
  have whole := List.takeWhile_append_dropWhile
    (p := fun line => isIndented line || line.isBlank) (l := block.lines)
  have some_code : block.lines.takeWhile (fun line => isIndented line || line.isBlank) ≠ [] := by
    obtain ⟨first, others, same⟩ := Text.exists_lines_eq_cons block
    have start := Text.firstLine_eq_head_lines block
    rw [same, List.head?_cons, Option.some.injEq] at start
    rw [same, start, List.takeWhile_cons_of_pos (by rw [isIndented_firstLine indented, Bool.true_or])]
    exact List.cons_ne_nil _ _
  unfold behindCode
  split
  · exact .all
  · next some_line =>
    obtain ⟨head, some_char, same⟩ := exists_head whole.symm some_code some_line
    exact .part some_char same

theorem remnant_cut {α : Type} {shape : Text → Option α} {cut : Cut α}
    (found : cut? shape block = some cut) (rest : List Text) :
    Remnant block rest (putBack cut.behind rest) := by
  obtain ⟨front, line, behind, same, -, -, put⟩ := exists_of_cut? found
  rw [put]
  by_cases none : behind = []
  · rw [none]
    exact .all
  · rw [← List.singleton_append, ← List.append_assoc] at same
    obtain ⟨head, some_char, same⟩ := exists_head same (by simp) none
    exact remnant_putBack some_char same rest

/-! Closed trees. -/

theorem exists_openContainer (closed : tree.Closed) (valid : parent < tree.size) (tag : String) :
    ∃ made, openContainer tree parent tag = .ok made ∧ made.2.Closed ∧ tree.size ≤ made.2.size ∧
      made.1 < made.2.size := by
  have fresh : ∃ made, tree.append parent tag = .ok made ∧ made.2.Closed ∧
      tree.size ≤ made.2.size ∧ made.1 < made.2.size :=
    ⟨_, Tree.attach_eq_ok valid, closed.attached valid rfl,
      Nat.le_of_lt (Tree.size_lt_attached tree parent { tag }), Tree.size_lt_attached _ _ _⟩
  cases atEnd : (tree.childrenOf parent).getLast? with
  | none =>
    simp only [openContainer, Tree.lastChild?_eq_ok valid, atEnd]
    exact fresh
  | some sibling =>
    have held := closed.lt_size (List.mem_of_getLast? atEnd)
    obtain ⟨element, found⟩ := Tree.exists_get? held
    simp only [openContainer, Tree.lastChild?_eq_ok valid, atEnd, Tree.element_eq_ok found, bind,
      Except.bind]
    by_cases same : element.tag = tag
    · simp only [same, if_true]
      exact ⟨(sibling, tree), rfl, closed, Nat.le_refl _, held⟩
    · simp only [same, if_false]
      exact fresh

theorem exists_tighten (closed : tree.Closed) (valid : item < tree.size) :
    ∃ tight, tighten tree item = .ok tight ∧ tight.Closed ∧ tight.size = tree.size := by
  have kept : ∃ tight, (.ok tree : Except Fault Tree) = .ok tight ∧ tight.Closed ∧
      tight.size = tree.size := ⟨tree, rfl, closed, rfl⟩
  unfold tighten
  rw [Tree.children_eq_ok valid]
  match inside : tree.childrenOf item with
  | [] => exact kept
  | _ :: _ :: _ => exact kept
  | [only] =>
    have held : only < tree.size := closed.lt_size (inside ▸ List.mem_singleton_self only)
    obtain ⟨element, found⟩ := Tree.exists_get? held
    simp only [bind, Except.bind, Tree.element_eq_ok found]
    split
    · exact kept
    · let cleared : Tree := tree.modify only fun element => { element with text := none }
      have cleared_closed : cleared.Closed := closed.modify_links (keepsLinks_text none)
      have held' : only < cleared.size := by
        rw [Tree.size_modify]
        exact held
      obtain ⟨orphaned, detached, orphaned_closed, size⟩ := cleared_closed.exists_detach held'
      have valid' : item < orphaned.size := by
        rw [size, Tree.size_modify]
        exact valid
      simp only [Tree.setText, Tree.update_eq_ok held]
      change ∃ tight, (cleared.detach only).bind _ = _ ∧ _
      rw [detached]
      refine ⟨_, Tree.update_eq_ok valid', orphaned_closed.modify_links (keepsLinks_text _), ?_⟩
      rw [Tree.size_modify, size, Tree.size_modify]

/-! Scripts. -/

theorem leads_attached (sound : session.Sound holds) (valid : parent < session.tree.size)
    {element : Element} (leaf : element.children = []) :
    session.Leads holds (session.setTree (session.tree.attached parent element)) :=
  sound.setTree (sound.closed.attached valid leaf) (Nat.le_of_lt (Tree.size_lt_attached _ _ _))

theorem leads_withCode (sound : session.Sound holds) (valid : parent < session.tree.size)
    (code : Text) : session.Leads holds (session.setTree (withCode session.tree parent code)) := by
  let pre : Element := { tag := "pre" }
  have outer : session.Leads holds (session.setTree (session.tree.attached parent pre)) :=
    leads_attached sound valid rfl
  exact outer.trans (leads_attached outer.sound (Tree.size_lt_attached _ _ _) rfl)

theorem empty_takes : (Actor.ofLeaf empty fun _ _ => rfl).Takes := by
  intro holds session parent block rest sound valid accepted
  have either : block.isBlank = true ∨ block.head? = some '\n' := by
    simpa [Actor.ofLeaf, empty] using accepted
  exact ⟨_, rfl, session, _, rfl, sound.leads, remnant_empty either rest⟩

theorem indentedCode_takes : (Actor.ofLeaf indentedCode fun _ _ => rfl).Takes := by
  intro holds session parent block rest sound valid accepted
  have left := remnant_code accepted rest
  obtain ⟨found, last, placed⟩ := exists_lastCode? sound.closed valid
  cases found with
  | none =>
    exact ⟨_, indentedCode_run_new valid last rest, _, _, rfl, leads_withCode sound valid _, left⟩
  | some code =>
    obtain ⟨_, _, _, -, -, -, -, inside, -⟩ := (placed code).1 rfl
    have held : code < session.tree.size := Tree.lt_size_of_get? inside
    exact ⟨_, indentedCode_run_more held last rest, _, _, rfl,
      sound.modify code (keepsLinks_moreCode _), left⟩

theorem stash_takes : (Actor.ofLeaf stash fun _ _ => rfl).Takes := by
  intro holds session parent block rest sound valid accepted
  obtain ⟨fragment, found⟩ := Option.isSome_iff_exists.1 accepted
  have written := leads_withCode sound valid fragment.code
  cases language : fragment.language with
  | none =>
    refine ⟨_, ?_, _, rest, rfl, written, .all⟩
    simp only [stash, found, append_code_eq_ok valid, language]
    rfl
  | some name =>
    let change (element : Element) : Element :=
      { element with attributes := element.attributes.insert "class" ("language-".toList ++ name) }
    have keeps : Tree.KeepsLinks change := ⟨fun _ => rfl, fun _ => rfl⟩
    have outside : session.tree.size + 1 < (withCode session.tree parent fragment.code).size := by
      simp [withCode]
    refine ⟨_, ?_, _, rest, rfl,
      written.trans (written.sound.modify (session.tree.size + 1) keeps), .all⟩
    simp only [stash, found, append_code_eq_ok valid, language, Tree.setAttribute]
    rw [Tree.update_eq_ok outside]
    rfl

theorem paragraph_takes : (Actor.ofLeaf paragraph fun _ _ => rfl).Takes := by
  intro holds session parent block rest sound valid accepted
  by_cases none : paragraphText block = []
  · refine ⟨_, ?_, session, rest, rfl, sound.leads, .all⟩
    simp only [paragraph, none, if_true]
    rfl
  · let element : Element := { tag := "p", text := some (paragraphText block) }
    refine ⟨_, ?_, session.setTree (session.tree.attached parent element), rest, rfl,
      leads_attached sound valid rfl, .all⟩
    simp only [paragraph, none, if_false, Tree.appendText]
    rw [Tree.attach_eq_ok valid]
    rfl

theorem cutScript_ends {α : Type} {shape : Text → Option α} {cut : Cut α} {element : Element}
    (found : cut? shape block = some cut) (leaf : element.children = []) (rest : List Text)
    (sound : session.Sound holds) (valid : parent < session.tree.size) :
    (cutScript cut element session parent rest).Ends holds (weight [block]) fun outcome =>
      ∃ after queue, outcome = .handled after queue ∧ session.Leads holds after ∧
        Remnant block rest queue := by
  -- The element is attached behind what stood before the cut.
  have attach {before : Session} (leads : session.Leads holds before) : (do
      let made ← before.tree.attach parent element
      return .handled (before.setTree made.2) (putBack cut.behind rest) : Script Outcome).Ends holds
        (weight [block]) fun outcome => ∃ after queue, outcome = .handled after queue ∧
          session.Leads holds after ∧ Remnant block rest queue := by
    have valid' := leads.lt_size valid
    refine Script.Ends.bind (Script.ends_lift ⟨_, Tree.attach_eq_ok valid', rfl⟩) ?_
    rintro made rfl
    exact Script.ends_pure ⟨_, _, rfl, leads.trans (leads_attached leads.sound valid' leaf),
      remnant_cut found rest⟩
  unfold cutScript
  split
  · exact attach sound.leads
  · next content =>
    have light := (shorter_of_cut? found).before.resolve_left content
    exact Script.Ends.bind (Script.ends_reparse sound valid light) fun before leads => attach leads

theorem heading_takes : headingActor.Takes := by
  intro holds session parent block rest sound valid accepted
  obtain ⟨cut, found⟩ := Option.isSome_iff_exists.1 accepted
  simp only [headingActor, found]
  exact cutScript_ends found rfl rest sound valid

theorem rule_takes : ruleActor.Takes := by
  intro holds session parent block rest sound valid accepted
  obtain ⟨cut, found⟩ := Option.isSome_iff_exists.1 accepted
  simp only [ruleActor, found]
  exact cutScript_ends found rfl rest sound valid

theorem itemsScript_ends {bound : Nat} {bodies : List (List Text)} {list : NodeId}
    (light : ∀ body ∈ bodies, weight (Text.joinLines body).blocks < bound)
    (sound : session.Sound holds) (valid : list < session.tree.size) :
    (itemsScript list bodies session).Ends holds bound (session.Leads holds) := by
  induction bodies generalizing session with
  | nil => exact Script.ends_pure sound.leads
  | cons body rest ih =>
    obtain ⟨small, later⟩ := List.forall_mem_cons.1 light
    refine Script.Ends.bind (Script.ends_lift ⟨_, Tree.attach_eq_ok valid, rfl⟩) ?_
    rintro made rfl
    let item : Element := { tag := "li" }
    have held := Tree.size_lt_attached session.tree list item
    have start : session.Leads holds (session.setTree (session.tree.attached list item)) :=
      leads_attached sound valid rfl
    refine Script.Ends.bind (Script.ends_reparse start.sound held small) fun inner filled => ?_
    obtain ⟨tight, tightened, closed, size⟩ :=
      exists_tighten filled.sound.closed (filled.lt_size held)
    refine Script.Ends.bind (Script.ends_lift ⟨_, tightened, rfl⟩) ?_
    rintro tree rfl
    have whole := (start.trans filled).trans (filled.sound.setTree closed (Nat.le_of_eq size.symm))
    exact (ih later whole.sound (whole.lt_size valid)).imp fun _ leads => whole.trans leads

theorem list_takes : listActor.Takes := by
  intro holds session parent block rest sound valid accepted
  obtain ⟨⟨kind, text⟩, found⟩ := Option.isSome_iff_exists.1 accepted
  obtain ⟨made, opened, closed, size_le, held⟩ :=
    exists_openContainer sound.closed valid kind.tag
  simp only [listActor, found]
  refine Script.Ends.bind (Script.ends_lift ⟨_, opened, rfl⟩) ?_
  rintro other rfl
  have start := sound.setTree closed size_le
  refine Script.Ends.bind
    (itemsScript_ends (fun body member => weight_body_lt member) start.sound held) fun after leads => ?_
  exact Script.ends_pure ⟨after, rest, rfl, start.trans leads, .all⟩

theorem blockquote_takes : blockquoteActor.Takes := by
  intro holds session parent block rest sound valid accepted
  obtain ⟨made, opened, closed, size_le, held⟩ :=
    exists_openContainer sound.closed valid "blockquote"
  refine Script.Ends.bind (Script.ends_lift ⟨_, opened, rfl⟩) ?_
  rintro other rfl
  have start := sound.setTree closed size_le
  refine Script.Ends.bind (Script.ends_reparse start.sound held (weight_unquote_lt accepted))
    fun after leads => ?_
  exact Script.ends_pure ⟨after, rest, rfl, start.trans leads, .all⟩

/-- Each handler of the grammar takes the blocks that it accepts. -/
theorem actors_take : ∀ actor ∈ actors, actor.Takes := by
  intro actor member
  simp only [actors, List.mem_cons, List.not_mem_nil, or_false] at member
  rcases member with rfl | rfl | rfl | rfl | rfl | rfl | rfl | rfl
  · exact empty_takes
  · exact indentedCode_takes
  · exact heading_takes
  · exact rule_takes
  · exact list_takes
  · exact blockquote_takes
  · exact stash_takes
  · exact paragraph_takes

variable {first second : Reparse} {handler : Handler}

-- Either parser of a pair will do.
theorem exists_taken (member : handler ∈ members)
    (inner : Dispatch.Ends holds (weight [block]) first second) (rest : List Text)
    (sound : session.Sound holds) (valid : parent < session.tree.size)
    (accepted : handler.accepts session parent block = true) :
    ∃ after queue, handler.run second session parent block rest = .ok (.handled after queue) ∧
      Remnant block rest queue := by
  rw [← map_handler_actors] at member
  obtain ⟨actor, listed, rfl⟩ := List.mem_map.1 member
  obtain ⟨after, queue, -, ran, -, left⟩ :=
    (actors_take actor listed).run inner rest sound valid accepted
  exact ⟨after, queue, ran, left⟩

theorem members_end (member : handler ∈ members) : handler.EndsBelow := by
  rw [← map_handler_actors] at member
  obtain ⟨actor, listed, rfl⟩ := List.mem_map.1 member
  exact (actors_take actor listed).endsBelow

end Tracemark.Grammar
