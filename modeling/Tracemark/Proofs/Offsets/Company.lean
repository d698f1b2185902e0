import Tracemark.Proofs.Dispatch.Budget
import Tracemark.Proofs.Grammar.Mover
import Tracemark.Proofs.Offsets.Ending
import Tracemark.Proofs.Offsets.Traced

/-! The layer in company.

The layer may stand in any place among handlers that edit, and any number of times. Each of its calls
claims lines, hands its block on to all handlers, of which only the others take it, and writes onto the
tree that they have made of it. What edits keep, and what holds of one call of the layer after another,
then holds of the whole render of a source.
-/

set_option autoImplicit false

namespace Tracemark

open Tracemark.Alignment (Differ)
open Tracemark.Offsets (Origin Settings Tracker attributor)

namespace Call

def busy? (call : Call) : Option Session := do
  let tracker ← call.session.tracker?
  let (lines, _) ← tracker.claim call.block
  return call.session.setTracker (tracker.busy lines)

def origin? (call : Call) : Option Origin := do
  let tracker ← call.session.tracker?
  let (lines, _) ← tracker.claim call.block
  ((tracker.claimed lines).annotate lines).toOption.map (·.1)

def Parses (parser : Reparse) (call : Call) (parsed : Session) : Prop :=
  ∃ busy ∈ call.busy?, parser busy call.parent [call.block] = .ok parsed

structure Handles (settings : Settings) (parser : Reparse) (call : Call) (parsed after : Session) :
    Prop where
  parses : call.Parses parser parsed
  handled : ∀ rest, (attributor settings).run parser call.session call.parent call.block rest =
    .ok (.handled after rest)

end Call

namespace Offsets

open Tracemark.Dispatch (calls run weight)

variable {settings : Settings} {moves : Prop} {actors : List Actor} {handlers : Handlers}
  {parser : Reparse} {call : Call} {tracker : Tracker} {lines : Interval}
  {session parsed after : Session} {parent : NodeId} {block : Text} {queue : List Text}
  {past inner log : List Call} {around : List String} {budget : Nat}
  {holds : List Call → Session → Prop}

/-! Handlers. -/

structure Beside (moves : Prop) (actor : Actor) : Prop where
  edits : actor.Edits moves
  ends : actor.handler.EndsBelow
  named : actor.handler.name ≠ "offsets"

/-- The layer, in any places among handlers that edit. -/
def Company (settings : Settings) (moves : Prop) (actors : List Actor) : Prop :=
  ∀ actor ∈ actors, actor = layer settings ∨ Beside moves actor

theorem beside_grammar : ∀ actor ∈ Grammar.actors, Beside moves actor := by
  intro actor member
  have names : "offsets" ∉ Grammar.actors.map (·.handler.name) := by decide
  refine ⟨Grammar.actors_edit actor member, Grammar.members_end ?_, fun same => ?_⟩
  · rw [← Grammar.map_handler_actors]
    exact List.mem_map_of_mem member
  · exact names (same ▸ List.mem_map_of_mem member)

theorem beside_mover {mover : Mover} (named : mover.name ≠ "offsets") : Beside True mover.actor :=
  ⟨mover.actor_edits, mover.endsBelow, named⟩

theorem Company.ends (company : Company settings moves actors)
    (acted : handlers.items = actors.map (·.handler)) : ∀ handler ∈ handlers.items,
      handler.EndsBelow ∨ ∃ settings, handler = attributor settings := by
  rw [acted]
  intro handler member
  obtain ⟨actor, listed, rfl⟩ := List.mem_map.1 member
  rcases company actor listed with rfl | beside
  · exact .inr ⟨settings, rfl⟩
  · exact .inl beside.ends

theorem Company.exists_parsed (company : Company settings moves actors)
    (acted : handlers.items = actors.map (·.handler)) (closed : session.tree.Closed)
    (valid : parent < session.tree.size) (queue : List Text) :
    ∃ after, handlers.parseBlocks session parent queue = .ok after := by
  have sound : session.Sound fun _ => True := ⟨trivial, closed⟩
  obtain ⟨after, -, parsed, -⟩ :=
    ends_parseBlocks (company.ends acted) (Nat.le_refl _) sound valid (Nat.lt_succ_self (weight queue))
  exact ⟨after, parsed⟩

theorem Company.parseBlocks_of_run (company : Company settings moves actors)
    (acted : handlers.items = actors.map (·.handler)) (closed : session.tree.Closed)
    (valid : parent < session.tree.size)
    (ran : run (actors.map (·.handler)) budget session parent queue = .ok after) :
    handlers.parseBlocks session parent queue = .ok after := by
  obtain ⟨other, parsed⟩ := company.exists_parsed acted closed valid queue
  have ran' := parsed
  rw [Handlers.parseBlocks, acted] at ran'
  rw [parsed, Dispatch.eq_of_run ran ran']

/-- While a block is handed on, the others edit, and the layer is not run. -/
theorem Company.edits_busy (company : Company settings moves actors)
    (tracked : session.tracker? = some tracker) (busy : tracker.guard = .prerendering)
    (valid : parent < session.tree.size)
    (told : calls actors budget around session parent queue = .ok (inner, parsed)) :
    Session.Edits moves session parsed ∧ ∀ call ∈ inner, call.handler ≠ "offsets" := by
  let holds (past : List Call) (after : Session) : Prop :=
    Session.Edits moves session after ∧ ∀ call ∈ past, call.handler ≠ "offsets"
  have carries : Calling.Carries holds (calls actors budget) := by
    refine Dispatch.calls_carry fun actor member budget carries => ?_
    rcases company actor member with rfl | beside
    · intro past around other parent block rest inner outcome start valid accepted
      have quiet : (attributor settings).accepts other parent block = false :=
        attributor_quiet (start.1.tracker?.trans tracked) busy other.tree parent block
      exact absurd (quiet.symm.trans accepted) (by decide)
    · refine beside.edits.carries carries ?_ ?_
      · exact fun start edits => ⟨start.1.trans edits, start.2⟩
      · intro past around other parent block start _
        refine ⟨start.1, List.forall_mem_append.2 ⟨start.2, ?_⟩⟩
        exact List.forall_mem_singleton.2 beside.named
  have start : holds [] session := ⟨.refl session, by simp⟩
  exact (carries start valid told).1

/-! Calls of the layer. -/

structure Taken (settings : Settings) (moves : Prop) (parser : Reparse) (call : Call)
    (tracker : Tracker) (lines : Interval) (parsed after : Session) : Prop where
  tracked : call.session.tracker? = some tracker
  claim : tracker.claim call.block =
    some (lines, { tracker with lastClaimed := some (lines.stop - 1) })
  closed : call.session.tree.Closed
  valid : call.parent < call.session.tree.size
  ran : parser (call.session.setTracker (tracker.busy lines)) call.parent [call.block] = .ok parsed
  edits : Session.Edits moves (call.session.setTracker (tracker.busy lines)) parsed
  concluded : Concluded settings (call.session.tree.childrenOf call.parent) call.parent lines parsed
    after
  ended : ∀ rest, (attributor settings).run (fun _ _ _ => .ok parsed) call.session call.parent
    call.block rest = .ok (.handled after rest)

namespace Taken

variable (taken : Taken settings moves parser call tracker lines parsed after)

include taken

theorem claim_bind : call.session.tracker?.bind (·.claim call.block) =
    some (lines, { tracker with lastClaimed := some (lines.stop - 1) }) := by
  rw [taken.tracked, Option.bind_some, taken.claim]

theorem busy?_eq : call.busy? = some (call.session.setTracker (tracker.busy lines)) := by
  unfold Call.busy?
  rw [taken.tracked, Option.bind_eq_bind, Option.bind_some, taken.claim]
  rfl

theorem origin?_eq : call.origin? =
    ((tracker.claimed lines).annotate lines).toOption.map (·.1) := by
  unfold Call.origin?
  rw [taken.tracked, Option.bind_eq_bind, Option.bind_some, taken.claim]
  rfl

theorem parses_iff {other : Session} : call.Parses parser other ↔ other = parsed := by
  constructor
  · rintro ⟨busy, same, ran⟩
    cases same.symm.trans taken.busy?_eq
    exact Except.ok.inj (ran.symm.trans taken.ran)
  · rintro rfl
    exact ⟨_, taken.busy?_eq, taken.ran⟩

theorem handles : call.Handles settings parser parsed after where
  parses := taken.parses_iff.2 rfl
  handled := by
    intro rest
    change (layer settings).handler.run parser call.session call.parent call.block rest = _
    rw [(layer settings).run_eq, script_layer taken.claim_bind taken.valid, Script.run]
    change (parser (call.session.setTracker (tracker.busy lines)) call.parent [call.block]).bind _ = _
    rw [taken.ran]
    exact taken.ended rest

theorem edited : Tree.Edited moves call.session.tree parsed.tree := taken.edits.tree

theorem tracked_parsed : parsed.tracker? = some (tracker.busy lines) :=
  taken.edits.tracker?.trans (Session.tracker?_setTracker _ _)

theorem lost_or_placed :
    call.origin? = none ∧ after = parsed.setTracker (tracker.claimed lines) ∨
      ∃ (origin : Origin) (annotated : Tracker) (emitted : Option NodeId) (tree : Tree),
        call.origin? = some origin ∧
        Wrote (settings.stamper tracker) parsed.tree call.parent tracker.lastEmitted origin
          (produced (call.session.tree.childrenOf call.parent) (parsed.tree.childrenOf call.parent))
          emitted tree ∧
        after = (parsed.setTree tree).setTracker
          { annotated with lastEmitted := emitted.or tracker.lastEmitted } := by
  have tracked := taken.tracked_parsed
  rw [taken.origin?_eq]
  cases taken.concluded with
  | untracked none =>
    rw [tracked] at none
    cases none
  | lost same annotate =>
    cases tracked.symm.trans same
    refine .inl ⟨?_, rfl⟩
    rw [show Tracker.annotate (tracker.claimed lines) lines = _ from annotate]
    rfl
  | placed same annotate wrote =>
    cases tracked.symm.trans same
    refine .inr ⟨_, _, _, _, ?_, wrote, rfl⟩
    rw [show Tracker.annotate (tracker.claimed lines) lines = _ from annotate]
    rfl

end Taken

theorem Company.layer_carries (company : Company settings moves actors)
    (acted : handlers.items = actors.map (·.handler))
    (closed : ∀ {past session}, holds past session → session.tree.Closed)
    (taken : ∀ {past call inner tracker lines parsed after}, holds past call.session →
      call.handler = "offsets" → (∀ call ∈ inner, call.handler ≠ "offsets") →
      Taken settings moves handlers.parseBlocks call tracker lines parsed after →
      holds (past ++ call :: inner) after) :
    (layer settings).Carries holds (calls actors budget) := by
  intro past around session parent block rest inner outcome start valid accepted told
  obtain ⟨tracker, lines, tracked, claim⟩ := exists_claim_of_accepts accepted
  have claim' : session.tracker?.bind (·.claim block) =
      some (lines, { tracker with lastClaimed := some (lines.stop - 1) }) := by
    rw [tracked, Option.bind_some, claim]
  rw [script_layer claim' valid] at told
  obtain ⟨⟨first, parsed⟩, handed, told⟩ := exists_of_bind told
  obtain ⟨⟨later, value⟩, ended, told⟩ := exists_of_bind told
  cases told
  obtain ⟨found, ended, same⟩ := exists_of_map ended
  cases same
  rw [List.append_nil]
  let busy := session.setTracker (tracker.busy lines)
  have closed' : session.tree.Closed := closed start
  obtain ⟨edits, quiet⟩ := company.edits_busy (Session.tracker?_setTracker session _) rfl valid handed
  have ran : run (actors.map (·.handler)) budget busy parent [block] = .ok parsed := by
    rw [← Dispatch.map_calls actors budget _ busy parent [block]]
    exact congrArg (Except.map (·.2)) handed
  have parses : handlers.parseBlocks busy parent [block] = .ok parsed :=
    company.parseBlocks_of_run acted closed' valid ran
  obtain ⟨after, concluded, took⟩ := exists_concluded settings claim' valid
    (edits.tree.closed closed') edits.tree.size_le
  cases (took rest).symm.trans ended
  have here : Taken settings moves handlers.parseBlocks ⟨"offsets", around, session, parent, block⟩
      tracker lines parsed after :=
    ⟨tracked, claim, closed', valid, parses, edits, concluded, took⟩
  exact ⟨taken start rfl quiet here, edits.tree.size_le.trans_eq concluded.size_eq.symm⟩

/-- What holds of histories and is kept by all that a run over a company does. -/
structure Kept (settings : Settings) (moves : Prop) (parser : Reparse)
    (holds : List Call → Session → Prop) : Prop where
  closed : ∀ {past session}, holds past session → session.tree.Closed
  edits : ∀ {past before after}, holds past before → Session.Edits moves before after →
    holds past after
  beside : ∀ {past call}, holds past call.session → call.handler ≠ "offsets" →
    holds (past ++ [call]) call.session
  taken : ∀ {past call inner tracker lines parsed after}, holds past call.session →
    call.handler = "offsets" → (∀ call ∈ inner, call.handler ≠ "offsets") →
    Taken settings moves parser call tracker lines parsed after → holds (past ++ call :: inner) after

theorem Company.calls_carry (company : Company settings moves actors)
    (acted : handlers.items = actors.map (·.handler))
    (kept : Kept settings moves handlers.parseBlocks holds) :
    Calling.Carries holds (calls actors budget) := by
  refine Dispatch.calls_carry fun actor member budget carries => ?_
  rcases company actor member with rfl | beside
  · exact company.layer_carries acted kept.closed kept.taken
  · exact beside.edits.carries carries kept.edits fun start _ => kept.beside start beside.named

/-- A source is rendered by calls, and what is kept holds of them and of the session that they leave. -/
theorem Company.exists_calls {differ : Differ} {between : List Stage} {compiler : Compiler}
    (company : Company settings moves actors) (staged : Staged differ settings between compiler)
    (acted : compiler.handlers.items = actors.map (·.handler))
    (kept : Kept settings moves compiler.handlers.parseBlocks holds) (source : Text)
    (start : holds [] (startSession differ settings between source)) :
    ∃ log session, compiler.calls actors source = .ok (log, session) ∧
      compiler.render source = .ok session ∧ holds log session := by
  have empty : (startSession differ settings between source).tree = Tree.empty :=
    staged.tree_startSession source
  have valid : Tree.root < (startSession differ settings between source).tree.size := by
    rw [empty]
    exact Nat.one_pos
  obtain ⟨session, parsed⟩ :=
    company.exists_parsed acted (kept.closed start) valid (preparedBlocks between source)
  have rendered : compiler.render source = .ok session := by
    rw [Compiler.render, staged.runAll_eq]
    exact parsed
  obtain ⟨⟨log, session'⟩, told, same⟩ :=
    exists_of_map ((Compiler.map_calls acted source).trans rendered)
  cases same
  refine ⟨log, session', told, rendered, ?_⟩
  rw [Compiler.calls, staged.runAll_eq] at told
  exact (company.calls_carry acted kept start valid told).1

theorem Company.exists_taken {differ : Differ} {between : List Stage} {compiler : Compiler}
    (company : Company settings moves actors) (staged : Staged differ settings between compiler)
    (acted : compiler.handlers.items = actors.map (·.handler)) (source : Text) :
    ∃ log session, compiler.calls actors source = .ok (log, session) ∧
      compiler.render source = .ok session ∧
      ∀ call ∈ log, call.handler = "offsets" → ∃ tracker lines parsed after,
        Taken settings moves compiler.handlers.parseBlocks call tracker lines parsed after := by
  let each (log : List Call) : Prop := ∀ call ∈ log, call.handler = "offsets" →
    ∃ tracker lines parsed after,
      Taken settings moves compiler.handlers.parseBlocks call tracker lines parsed after
  have kept : Kept settings moves compiler.handlers.parseBlocks
      fun log session => session.tree.Closed ∧ each log := by
    constructor
    · exact fun start => start.1
    · exact fun start edits => ⟨edits.tree.closed start.1, start.2⟩
    · rintro past call start other
      refine ⟨start.1, List.forall_mem_append.2 ⟨start.2, List.forall_mem_singleton.2 ?_⟩⟩
      exact fun layer => absurd layer other
    · rintro past call inner tracker lines parsed after start - quiet taken
      refine ⟨taken.concluded.closed (taken.edited.closed taken.closed), ?_⟩
      refine List.forall_mem_append.2 ⟨start.2, List.forall_mem_cons.2 ⟨fun _ => ?_, ?_⟩⟩
      · exact ⟨tracker, lines, parsed, after, taken⟩
      · exact fun other member layer => absurd layer (quiet other member)
  have start : (startSession differ settings between source).tree.Closed ∧ each [] := by
    rw [staged.tree_startSession]
    exact ⟨Tree.closed_empty, by simp [each]⟩
  obtain ⟨log, session, told, rendered, -, taken⟩ := company.exists_calls staged acted kept source start
  exact ⟨log, session, told, rendered, taken⟩

end Offsets

end Tracemark
