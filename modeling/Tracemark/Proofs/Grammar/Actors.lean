import Tracemark.Proofs.Dispatch.Calls
import Tracemark.Proofs.Grammar.Reference
import Tracemark.Proofs.Grammar.Wrapper

/-! The scripts of the grammar.

Cuts, lists and quotes have text parsed again, and so does a wrapper. None of the handlers of the
grammar touches the tracker of a session: what they parse starts with the tracker they were given, and
if it comes back with that tracker they end with it.
-/

set_option autoImplicit false

namespace Tracemark

namespace Actor

def ofLeaf (handler : Handler) (alone : ∀ first second, handler.run first = handler.run second) :
    Actor where
  handler
  script session parent block rest :=
    .done (handler.run (fun _ _ _ => throw .exhausted) session parent block rest)
  run_eq parser session parent block rest := by
    rw [alone parser]
    rfl

def LeavesTracker (actor : Actor) : Prop :=
  ∀ session parent block rest, (actor.script session parent block rest).Within
    (fun other => other.tracker? = session.tracker?)
    fun outcome => outcome.session.tracker? = session.tracker?

end Actor

def Wrapper.actor (wrapper : Wrapper) : Actor where
  handler := wrapper.handler
  script session parent block rest := do
    let (inner, tree) ← session.tree.append parent wrapper.tag
    let session ← Script.reparse (session.setTree tree) inner block.blocks
    return .handled session rest
  run_eq parser session parent block rest := by
    simp [Wrapper.handler]

theorem Wrapper.script_eq (wrapper : Wrapper) {session : Session} {parent : NodeId} {block : Text}
    {rest : List Text} (valid : parent < session.tree.size) :
    wrapper.actor.script session parent block rest =
      .parse (session.setTree (session.tree.attached parent { tag := wrapper.tag }))
        session.tree.size block.blocks fun after => .done (.ok (.handled after rest)) := by
  change Script.bind (.done (session.tree.attach parent { tag := wrapper.tag })) _ = _
  rw [Tree.attach_eq_ok valid]
  rfl

namespace Grammar

open LineShape (Cut cut? heading? item? quoted?)

def cutScript {α : Type} (cut : Cut α) (element : Element) (session : Session) (parent : NodeId)
    (rest : List Text) : Script Outcome := do
  let session ←
    if cut.before.isBlank then pure session else Script.reparse session parent [cut.before]
  let (_, tree) ← session.tree.attach parent element
  return .handled (session.setTree tree) (putBack cut.behind rest)

theorem run_cutScript {α : Type} (cut : Cut α) (element : Element) (parser : Reparse)
    (session : Session) (parent : NodeId) (rest : List Text) :
    (cutScript cut element session parent rest).run parser =
      writeAt cut element parser session parent rest := by
  unfold cutScript writeAt
  split <;> simp

def headingActor : Actor where
  handler := heading
  script session parent block rest :=
    match cut? heading? block with
    | none => return .declined session
    | some cut =>
      let element : Element := { tag := headingTag cut.found.level, text := some cut.found.title }
      cutScript cut element session parent rest
  run_eq parser session parent block rest := by
    unfold heading
    simp only
    cases cut? heading? block with
    | none => rfl
    | some cut => exact (run_cutScript _ _ _ _ _ _).symm

def ruleActor : Actor where
  handler := rule
  script session parent block rest :=
    match cut? rule? block with
    | none => return .declined session
    | some cut => cutScript cut { tag := "hr" } session parent rest
  run_eq parser session parent block rest := by
    unfold rule
    simp only
    cases cut? rule? block with
    | none => rfl
    | some cut => exact (run_cutScript _ _ _ _ _ _).symm

def itemsScript (list : NodeId) : List (List Text) → Session → Script Session
  | [], session => return session
  | body :: rest, session => do
    let (item, tree) ← session.tree.append list "li"
    let session ← Script.reparse (session.setTree tree) item (Text.joinLines body).blocks
    let tree ← tighten session.tree item
    itemsScript list rest (session.setTree tree)

theorem run_itemsScript (parser : Reparse) (list : NodeId) (bodies : List (List Text))
    (session : Session) : (itemsScript list bodies session).run parser =
      writeItems parser list bodies session := by
  induction bodies generalizing session with
  | nil => rfl
  | cons body rest ih =>
    simp [itemsScript, writeItems, ih]

def listActor : Actor where
  handler := list
  script session parent block rest :=
    match item? block.firstLine with
    | none => return .declined session
    | some (kind, _) => do
      let (list, tree) ← openContainer session.tree parent kind.tag
      let session ← itemsScript list (itemBodies kind block.lines) (session.setTree tree)
      return .handled session rest
  run_eq parser session parent block rest := by
    unfold list
    simp only
    cases item? block.firstLine with
    | none => rfl
    | some item => simp [run_itemsScript]

def blockquoteActor : Actor where
  handler := blockquote
  script session parent block rest := do
    let (quote, tree) ← openContainer session.tree parent "blockquote"
    let session ← Script.reparse (session.setTree tree) quote (unquote block).blocks
    return .handled session rest
  run_eq parser session parent block rest := by
    simp [blockquote]

def actors : List Actor :=
  [.ofLeaf empty fun _ _ => rfl, .ofLeaf indentedCode fun _ _ => rfl, headingActor, ruleActor,
    listActor, blockquoteActor, .ofLeaf stash fun _ _ => rfl, .ofLeaf paragraph fun _ _ => rfl]

theorem map_handler_actors : actors.map (·.handler) = members := rfl

/-! The tracker. -/

section

variable {tracker? : Option Offsets.Tracker} {session : Session} {parent : NodeId} {block : Text}
  {rest : List Text} {outcome : Outcome} {parser : Reparse}

theorem within_cutScript {α : Type} (cut : Cut α) (element : Element)
    (start : session.tracker? = tracker?) : (cutScript cut element session parent rest).Within
      (·.tracker? = tracker?) (·.session.tracker? = tracker?) := by
  -- The element is attached behind what stood before the cut.
  have attach {before : Session} (same : before.tracker? = tracker?) : (do
      let (_, tree) ← before.tree.attach parent element
      return .handled (before.setTree tree) (putBack cut.behind rest) : Script Outcome).Within
      (·.tracker? = tracker?) (·.session.tracker? = tracker?) := by
    refine Script.Within.bind (Script.within_lift _) fun made _ => ?_
    exact Script.within_pure same
  unfold cutScript
  split
  · exact attach start
  · exact Script.Within.bind (Script.within_reparse start) fun after back => attach back

theorem within_itemsScript (list : NodeId) (bodies : List (List Text))
    (start : session.tracker? = tracker?) : (itemsScript list bodies session).Within
      (·.tracker? = tracker?) (·.tracker? = tracker?) := by
  induction bodies generalizing session with
  | nil => exact Script.within_pure start
  | cons body rest ih =>
    refine Script.Within.bind (Script.within_lift _) fun made _ => ?_
    refine Script.Within.bind (Script.within_reparse start) fun after back => ?_
    exact Script.Within.bind (Script.within_lift _) fun tree _ => ih back

theorem tracker?_of_indentedCode
    (ran : indentedCode.run parser session parent block rest = .ok outcome) :
    outcome.session.tracker? = session.tracker? := by
  obtain ⟨found, -, ran⟩ := exists_of_bind ran
  cases found with
  | none =>
    obtain ⟨pre, -, ran⟩ := exists_of_bind ran
    obtain ⟨code, -, ran⟩ := exists_of_bind ran
    cases ran
    rfl
  | some existing =>
    obtain ⟨tree, -, ran⟩ := exists_of_bind ran
    cases ran
    rfl

theorem tracker?_of_stash (ran : stash.run parser session parent block rest = .ok outcome) :
    outcome.session.tracker? = session.tracker? := by
  unfold stash at ran
  simp only at ran
  split at ran
  · cases ran
    rfl
  · obtain ⟨pre, -, ran⟩ := exists_of_bind ran
    obtain ⟨code, -, ran⟩ := exists_of_bind ran
    split at ran
    · cases ran
      rfl
    · obtain ⟨tree, -, ran⟩ := exists_of_bind ran
      cases ran
      rfl

theorem tracker?_of_paragraph (ran : paragraph.run parser session parent block rest = .ok outcome) :
    outcome.session.tracker? = session.tracker? := by
  unfold paragraph at ran
  simp only at ran
  split at ran
  · cases ran
    rfl
  · obtain ⟨made, -, ran⟩ := exists_of_bind ran
    cases ran
    rfl

end

theorem actors_leave_tracker : ∀ actor ∈ actors, actor.LeavesTracker := by
  intro actor member
  simp only [actors, List.mem_cons, List.not_mem_nil, or_false] at member
  rcases member with rfl | rfl | rfl | rfl | rfl | rfl | rfl | rfl <;>
    intro session parent block rest
  · intro outcome ran
    cases ran
    rfl
  · exact fun outcome => tracker?_of_indentedCode
  · unfold headingActor
    simp only
    split
    · exact Script.within_pure rfl
    · exact within_cutScript _ _ rfl
  · unfold ruleActor
    simp only
    split
    · exact Script.within_pure rfl
    · exact within_cutScript _ _ rfl
  · unfold listActor
    simp only
    split
    · exact Script.within_pure rfl
    · refine Script.Within.bind (Script.within_lift _) fun made _ => ?_
      refine Script.Within.bind (within_itemsScript made.1 _ rfl) fun after back => ?_
      exact Script.within_pure back
  · refine Script.Within.bind (Script.within_lift _) fun made _ => ?_
    refine Script.Within.bind (Script.within_reparse rfl) fun after back => ?_
    exact Script.within_pure back
  · exact fun outcome => tracker?_of_stash
  · exact fun outcome => tracker?_of_paragraph

end Grammar

theorem Wrapper.actor_leaves_tracker (wrapper : Wrapper) : wrapper.actor.LeavesTracker := by
  intro session parent block rest
  refine Script.Within.bind (Script.within_lift _) fun made _ => ?_
  refine Script.Within.bind (Script.within_reparse rfl) fun after back => ?_
  exact Script.within_pure back

end Tracemark
