import Tracemark.Proofs.Grammar.Actors
import Tracemark.Proofs.Offsets.Delegation

/-! The layer in front of a crew.

A crew is the grammar, among whose handlers a wrapper may stand. The layer is registered above them
all. While it hands a block on to its crew, it takes no block itself, however deep text is parsed
again: nothing of the crew touches the tracker, so the guard stays as the layer has set it.
-/

set_option autoImplicit false

namespace Tracemark.Offsets

open Tracemark.Dispatch (calls offerCalls offerCalls_of_rejected run_wrapped_grows weight
  weight_blocks_le)
open Tracemark.Tree (Grows)

/-- The actor of the layer. It has one block parsed, and goes on as if the parser gave nothing but the
session that came of it. -/
def layer (settings : Settings) : Actor where
  handler := attributor settings
  script session parent block rest :=
    match session.tracker?.bind (·.claim block) with
    | none => return .declined session
    | some (_, claimed) => do
      let _ ← session.tree.children parent
      let busy := session.setTracker { claimed with guard := claimed.guard.enter }
      let after ← Script.reparse busy parent [block]
      liftM ((attributor settings).run (fun _ _ _ => return after) session parent block rest)
  run_eq parser session parent block rest := by
    unfold attributor
    simp only
    cases session.tracker?.bind (·.claim block) with
    | none => rfl
    | some found =>
      obtain ⟨span, claimed⟩ := found
      simp only [Script.run_bind, Script.run_lift, Script.run_reparse]
      cases children : session.tree.children parent with
      | error fault => simp [Session.setTracker, children, bind, Except.bind]
      | ok before =>
        simp only [Session.setTracker, children, bind, Except.bind]
        cases parser _ parent [block] <;> rfl

structure Crew where
  front : List Actor
  wrapper : Option Wrapper
  back : List Actor
  grammar : front ++ back = Grammar.actors
  named : ∀ member ∈ wrapper, member.name ≠ "offsets"

namespace Crew

def wrapped (wrapper : Wrapper) (named : wrapper.name ≠ "offsets") : Crew where
  front := []
  wrapper := some wrapper
  back := Grammar.actors
  grammar := rfl
  named := by simpa using named

def plain : Crew where
  front := []
  wrapper := none
  back := Grammar.actors
  grammar := rfl
  named := fun _ member => (Option.not_mem_none _ member).elim

def behind (crew : Crew) : List Actor :=
  crew.front ++ (crew.wrapper.toList.map Wrapper.actor ++ crew.back)

def actors (crew : Crew) (settings : Settings) : List Actor := layer settings :: crew.behind

variable {crew : Crew} {settings : Settings} {session : Session} {tracker : Tracker} {actor : Actor}

theorem mem_behind (member : actor ∈ crew.behind) :
    actor ∈ Grammar.actors ∨ ∃ wrapper ∈ crew.wrapper, actor = wrapper.actor := by
  simp only [behind, List.mem_append, List.mem_map, Option.mem_toList] at member
  rcases member with front | ⟨wrapper, found, rfl⟩ | back
  · exact .inl (crew.grammar ▸ List.mem_append_left _ front)
  · exact .inr ⟨wrapper, found, rfl⟩
  · exact .inl (crew.grammar ▸ List.mem_append_right _ back)

/-- Behind the layer comes the first handler of the grammar, or a wrapper in front of the grammar. -/
theorem behind_cases (crew : Crew) :
    (∃ others, crew.behind = .ofLeaf Grammar.empty (fun _ _ => rfl) :: others) ∨
      ∃ wrapper ∈ crew.wrapper, crew.behind = wrapper.actor :: Grammar.actors := by
  obtain ⟨front, wrapper, back, grammar, named⟩ := crew
  cases front with
  | cons first others =>
    cases (List.cons.inj grammar).1
    exact .inl ⟨_, rfl⟩
  | nil =>
    have same : back = Grammar.actors := grammar
    subst same
    cases wrapper with
    | none => exact .inl ⟨_, rfl⟩
    | some wrapper => exact .inr ⟨wrapper, rfl, rfl⟩

theorem name_ne (member : actor ∈ crew.behind) : actor.handler.name ≠ "offsets" := by
  rcases mem_behind member with grammar | ⟨wrapper, found, rfl⟩
  · have names : "offsets" ∉ Grammar.actors.map (·.handler.name) := by decide
    exact fun same => names (same ▸ List.mem_map_of_mem grammar)
  · exact crew.named wrapper found

theorem leavesTracker (member : actor ∈ crew.behind) : actor.LeavesTracker := by
  rcases mem_behind member with grammar | ⟨wrapper, -, rfl⟩
  · exact Grammar.actors_leave_tracker actor grammar
  · exact wrapper.actor_leaves_tracker

/-- While a block is handed on, the crew and the layer end whatever they are given. -/
theorem tame (crew : Crew) (settings : Settings) (tracked : session.tracker? = some tracker)
    (busy : tracker.guard = .prerendering) :
    ∀ handler ∈ (crew.actors settings).map (·.handler), handler.Tame session := by
  intro handler member
  obtain ⟨actor, listed, rfl⟩ := List.mem_map.1 member
  rcases List.mem_cons.1 listed with rfl | listed
  · exact .quiet (attributor_quiet tracked busy)
  · rcases mem_behind listed with grammar | ⟨wrapper, -, rfl⟩
    · apply Handler.Tame.lawful
      apply Grammar.members_lawful
      rw [← Grammar.map_handler_actors]
      exact List.mem_map_of_mem grammar
    · exact .wrapper wrapper

theorem keeps (crew : Crew) (settings : Settings) (busy : tracker.guard = .prerendering) :
    ∀ actor ∈ crew.actors settings,
      actor.Keeps (·.tracker? = some tracker) (·.handler ≠ "offsets") := by
  intro actor member around session parent block rest tracked accepted
  rcases List.mem_cons.1 member with rfl | member
  · have quiet : (attributor settings).accepts session parent block = false :=
      attributor_quiet tracked busy session.tree parent block
    exact absurd (quiet.symm.trans accepted) (by decide)
  · have leaves := leavesTracker member session parent block rest
    rw [tracked] at leaves
    exact ⟨name_ne member, leaves⟩

end Crew

variable {settings : Settings} {crew : Crew} {session : Session} {tracker : Tracker}
  {calling : Calling} {around : List String} {parent : NodeId} {block : Text}
  {queue rest blocks : List Text} {line : Nat}

/-! Blank blocks. -/

theorem offerCalls_empty (blank : block.isBlank = true) (others : List Actor) :
    offerCalls calling around parent block rest
        (.ofLeaf Grammar.empty (fun _ _ => rfl) :: others) session =
      .ok ([⟨"empty", around, session, parent, block⟩], session, rest) := by
  have nothing : Grammar.putBack block.dropLeadingFeeds rest = rest :=
    if_pos (Grammar.dropLeadingFeeds_isBlank blank)
  have accepted : Grammar.empty.accepts session parent block = true := by
    simp [Grammar.empty, blank]
  rw [offerCalls]
  simp only [Actor.ofLeaf, accepted, if_true]
  change Except.ok (_, session, Grammar.putBack block.dropLeadingFeeds rest) = _
  rw [nothing]
  rfl

theorem offerCalls_blank (blank : block.isBlank = true)
    (aside : ∀ wrapper ∈ crew.wrapper, wrapper.handler.accepts session parent block = false) :
    offerCalls calling around parent block rest (crew.actors settings) session =
      .ok ([⟨"empty", around, session, parent, block⟩], session, rest) := by
  rw [Crew.actors, offerCalls_of_rejected (attributor_rejects_blank blank)]
  rcases crew.behind_cases with ⟨others, behind⟩ | ⟨wrapper, found, behind⟩
  · rw [behind]
    exact offerCalls_empty blank others
  · have rejected : wrapper.actor.handler.accepts session parent block = false := aside wrapper found
    rw [behind, offerCalls_of_rejected rejected]
    exact offerCalls_empty blank _

theorem calls_blank_inside (settings : Settings) (crew : Crew) {budget : Nat}
    (inside : Tree.root < parent) (blank : ∀ text ∈ queue, text.isBlank = true)
    (enough : queue.length < budget) :
    ∃ log, calls (crew.actors settings) budget around session parent queue = .ok (log, session) ∧
      ∀ call ∈ log, call.handler ≠ "offsets" := by
  induction queue generalizing budget with
  | nil =>
    obtain ⟨budget, rfl⟩ := Nat.exists_eq_add_of_le' enough
    exact ⟨[], rfl, by simp⟩
  | cons block rest ih =>
    rw [List.forall_mem_cons] at blank
    obtain ⟨budget, rfl⟩ := Nat.exists_eq_add_of_le' (Nat.one_le_of_lt enough)
    obtain ⟨log, ran, quiet⟩ := ih blank.2 (Nat.lt_of_succ_lt_succ enough)
    refine ⟨⟨"empty", around, session, parent, block⟩ :: log, ?_, ?_⟩
    · rw [calls, offerCalls_blank blank.1 fun wrapper _ => Wrapper.rejects inside]
      change (calls (crew.actors settings) budget around session parent rest).bind _ = _
      rw [ran]
      rfl
    · rw [List.forall_mem_cons]
      exact ⟨by simp, quiet⟩

theorem exists_offerCalls_blank (settings : Settings) (crew : Crew) (blank : block.isBlank = true)
    (ordered : session.tree.Ordered) {budget : Nat} (enough : weight [block] < budget) :
    ∃ log grown, (∀ call ∈ log, call.handler ≠ "offsets") ∧ Grows Tree.root session.tree grown ∧
      ∀ rest, offerCalls (calls (crew.actors settings) budget) [] Tree.root block rest
        (crew.actors settings) session = .ok (log, session.setTree grown, rest) := by
  have passed (rest : List Text) : offerCalls (calls (crew.actors settings) budget) [] Tree.root
      block rest (crew.actors settings) session =
      offerCalls (calls (crew.actors settings) budget) [] Tree.root block rest crew.behind session :=
    offerCalls_of_rejected (attributor_rejects_blank blank)
  rcases crew.behind_cases with ⟨others, behind⟩ | ⟨wrapper, found, behind⟩
  · refine ⟨[⟨"empty", [], session, Tree.root, block⟩], session.tree, by simp, .refl ordered,
      fun rest => ?_⟩
    rw [passed, behind]
    exact offerCalls_empty blank others
  cases accepted : wrapper.actor.handler.accepts session Tree.root block with
  | false =>
    refine ⟨[⟨"empty", [], session, Tree.root, block⟩], session.tree, by simp, .refl ordered,
      fun rest => ?_⟩
    rw [passed, behind, offerCalls_of_rejected accepted]
    exact offerCalls_empty blank _
  | true =>
    have valid := ordered.root_lt_size
    let grown := session.tree.attached Tree.root { tag := wrapper.tag }
    have light : block.blocks.length < budget :=
      Nat.lt_of_le_of_lt (Nat.le_trans (Dispatch.length_le_weight _) (weight_blocks_le block)) enough
    obtain ⟨log, ran, quiet⟩ : ∃ log, calls (crew.actors settings) budget [wrapper.name]
        (session.setTree grown) session.tree.size block.blocks = .ok (log, session.setTree grown) ∧
        ∀ call ∈ log, call.handler ≠ "offsets" :=
      calls_blank_inside settings crew valid (fun _ => Text.isBlank_of_mem_blocks blank) light
    refine ⟨⟨wrapper.name, [], session, Tree.root, block⟩ :: log, grown, ?_,
      .attached ordered valid rfl (List.nil_subset _), fun rest => ?_⟩
    · rw [List.forall_mem_cons]
      exact ⟨crew.named wrapper found, quiet⟩
    · rw [passed, behind, offerCalls]
      simp only [accepted, if_true, wrapper.script_eq valid]
      change Except.bind (Script.calls (calls (crew.actors settings) budget [wrapper.name]) _)
        _ = _
      rw [Script.calls_parse_done ran rfl]
      rfl

/-! Claimed blocks. -/

theorem script_layer {lines : Interval} {claimed : Tracker}
    (claim : session.tracker?.bind (·.claim block) = some (lines, claimed))
    (valid : parent < session.tree.size) : (layer settings).script session parent block rest =
      .parse (session.setTracker { claimed with guard := claimed.guard.enter }) parent [block]
        fun after => .done
          ((attributor settings).run (fun _ _ _ => .ok after) session parent block rest) := by
  simp only [layer, claim]
  change Script.bind (.done (session.tree.children parent)) _ = _
  rw [Tree.children_eq_ok valid]
  rfl

/-- A block with content is claimed by one call of the layer, and by none of those in it. -/
theorem exists_offerCalls_content (settings : Settings) (crew : Crew)
    (facing : Facing line (block :: blocks) tracker session)
    (content : block.isBlank = false) {budget : Nat} (enough : weight [block] + 1 < budget) :
    ∃ lines grown after tracker' inner, contentRun? line block.lines = some lines ∧
      Grows Tree.root session.tree grown ∧ Handed settings session tracker lines grown after ∧
      Facing (line + block.lines.length + 1) blocks tracker' after ∧
      (∀ call ∈ inner, call.handler ≠ "offsets") ∧
      ∀ rest, offerCalls (calls (crew.actors settings) budget) [] Tree.root block rest
        (crew.actors settings) session =
        .ok (⟨"offsets", [], session, Tree.root, block⟩ :: inner, after, rest) := by
  obtain ⟨lines, found⟩ := exists_contentRun? line content
  let busy := session.setTracker (tracker.busy lines)
  have tracked : busy.tracker? = some (tracker.busy lines) := Session.tracker?_setTracker _ _
  have valid := facing.ordered.root_lt_size
  obtain ⟨grown, ran, grows⟩ :=
    run_wrapped_grows (crew.tame settings tracked rfl) facing.ordered valid enough
  obtain ⟨⟨inner, parsed⟩, told, same⟩ := exists_of_map
    ((Dispatch.map_calls (crew.actors settings) budget ["offsets"] busy Tree.root [block]).trans ran)
  cases same
  obtain ⟨quiet, -⟩ := Dispatch.sound_of_calls (crew.keeps settings rfl) tracked told
  let parser : Reparse := fun _ _ _ => .ok (busy.setTree grown)
  have again : parser busy Tree.root [block] = .ok (busy.setTree grown) := rfl
  obtain ⟨after, tracker', handed, facing', took⟩ :=
    attributor_hands settings facing found grows again
  have claim : session.tracker?.bind (·.claim block) =
      some (lines, { tracker with lastClaimed := some (lines.stop - 1) }) := by
    rw [facing.tracked, Option.bind_some, Tracker.claim_eq facing.unclaimed, found]
    rfl
  have accepted : (layer settings).handler.accepts session Tree.root block = true := by
    change (attributor settings).accepts session Tree.root block = true
    rw [attributor_accepts facing, content]
    rfl
  have acted (rest : List Text) : ((layer settings).script session Tree.root block rest).calls
      (calls (crew.actors settings) budget ["offsets"]) = .ok (inner, .handled after rest) := by
    rw [script_layer claim valid]
    exact Script.calls_parse_done told (congrArg Script.done (took rest))
  refine ⟨lines, grown, after, tracker', inner, found, grows, handed, facing', quiet, fun rest => ?_⟩
  rw [Crew.actors, offerCalls]
  simp only [accepted, if_true]
  change (((layer settings).script session Tree.root block rest).calls
    (calls (crew.actors settings) budget ["offsets"])).bind _ = _
  rw [acted]
  rfl

end Tracemark.Offsets
