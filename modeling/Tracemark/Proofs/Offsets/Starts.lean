import Tracemark.Proofs.Offsets.Company

/-! Starts of elements through a render.

Once the layer has written a start, later blocks leave it, with one exception. A block of which nothing
comes but that an older element is moved to the end is stamped onto that element as if it were new,
unless it is the one that was stamped last, and the element then starts where the block does.
-/

set_option autoImplicit false

namespace Tracemark

open Tracemark.Offsets (AttributeNames Origin Settings attributor produced)

/-- A call of the layer that writes the start of an older child anew: the child was moved to the end
while nothing was made, and another element was stamped last. -/
structure Call.Renews (parser : Reparse) (call : Call) (node : NodeId) (origin : Origin) : Prop where
  moved : ∃ parsed, call.Parses parser parsed ∧ produced (call.session.tree.childrenOf call.parent)
    (parsed.tree.childrenOf call.parent) = [node]
  older : node ∈ call.session.tree.childrenOf call.parent
  other : ∀ tracker ∈ call.session.tracker?, tracker.lastEmitted ≠ some node
  traced : call.origin? = some origin

namespace Offsets

variable {settings : Settings} {moves : Prop} {parser : Reparse} {call : Call} {tracker : Tracker}
  {lines : Interval} {before parsed after session : Session} {node : NodeId} {start : Text}
  {earlier later past inner log : List Call}

structure Passes (settings : Settings) (parser : Reparse) (call : Call) (after : Session)
    (node : NodeId) (start : Text) : Prop where
  renewed : ∀ origin, call.Renews parser node origin →
    start? settings after.tree node = some (Text.ofNat origin.start)
  kept : (∀ origin, ¬call.Renews parser node origin) → start? settings after.tree node = some start

theorem Taken.passes (taken : Taken settings moves parser call tracker lines parsed after)
    (held : start? settings call.session.tree node = some start) :
    Passes settings parser call after node start := by
  have parsed_start : start? settings parsed.tree node = some start :=
    (start?_of_edited taken.edited node).trans held
  rcases taken.lost_or_placed with ⟨lost, rfl⟩ | ⟨origin, annotated, emitted, tree, found, wrote, rfl⟩
  · refine ⟨fun origin renews => ?_, fun _ => parsed_start⟩
    rw [renews.traced] at lost
    cases lost
  have names := settings.names_stamper tracker
  by_cases member : node ∈ produced (call.session.tree.childrenOf call.parent)
      (parsed.tree.childrenOf call.parent)
  · -- An element with a start was there before the block, so it was moved.
    have older : node ∈ call.session.tree.childrenOf call.parent :=
      (taken.edited.children (mem_of_mem_produced member)).resolve_right
        (Nat.not_le_of_lt (Tree.lt_size_of_value? held))
    have alone := produced_eq_of_mem member older
    by_cases last : tracker.lastEmitted = some node
    · refine ⟨fun origin renews => absurd last (renews.other tracker taken.tracked), fun _ => ?_⟩
      exact wrote.start_kept names parsed_start fun _ => ⟨alone, last⟩
    · have valid : node < parsed.tree.size := Tree.lt_size_of_value? parsed_start
      have written := wrote.start_written names member valid fun _ => last
      have renews : call.Renews parser node origin := by
        refine ⟨⟨parsed, taken.parses_iff.2 rfl, alone⟩, older, ?_, found⟩
        intro other same
        cases taken.tracked.symm.trans same
        exact last
      refine ⟨fun other renews => ?_, fun none => absurd renews (none origin)⟩
      cases found.symm.trans renews.traced
      exact written
  · refine ⟨fun origin renews => ?_, fun _ => wrote.start_kept names parsed_start fun inside =>
      absurd inside member⟩
    obtain ⟨other, parses, alone⟩ := renews.moved
    rw [taken.parses_iff.1 parses] at alone
    rw [alone] at member
    exact absurd List.mem_cons_self member

/-! Runs. -/

theorem split_append {new : List Call} (same : past ++ new = earlier ++ call :: later) :
    (∃ between, past = earlier ++ call :: between ∧ later = between ++ new) ∨
      ∃ first, new = first ++ call :: later := by
  rcases List.append_eq_append_iff.1 same with ⟨first, -, new⟩ | ⟨rest, rfl, cut⟩
  · exact .inr ⟨first, new⟩
  · cases rest with
    | nil => exact .inr ⟨[], cut.symm⟩
    | cons other between =>
      cases cut
      exact .inl ⟨between, rfl, rfl⟩

def StartsPass (settings : Settings) (parser : Reparse) (log : List Call) (session : Session) : Prop :=
  ∀ {earlier call later}, log = earlier ++ call :: later → call.handler = "offsets" →
    ∃ parsed after, call.Handles settings parser parsed after ∧
      (∀ node start, start? settings call.session.tree node = some start →
        Passes settings parser call after node start) ∧
      ∀ node start, start? settings after.tree node = some start →
        (∀ other ∈ later, other.handler = "offsets" → ∀ origin, ¬other.Renews parser node origin) →
        start? settings session.tree node = some start

theorem startsPass_kept : Kept settings moves parser fun log session =>
    session.tree.Closed ∧ StartsPass settings parser log session := by
  constructor
  · exact fun start => start.1
  · rintro past before after ⟨closed, starts⟩ edits
    refine ⟨edits.tree.closed closed, fun split layer => ?_⟩
    obtain ⟨parsed, made, handles, passes, stays⟩ := starts split layer
    refine ⟨parsed, made, handles, passes, fun node start held quiet => ?_⟩
    exact (start?_of_edited edits.tree node).trans (stays node start held quiet)
  · rintro past call ⟨closed, starts⟩ other
    refine ⟨closed, ?_⟩
    intro earlier found later split layer
    rcases split_append split with ⟨between, rfl, rfl⟩ | ⟨first, new⟩
    · obtain ⟨parsed, made, handles, passes, stays⟩ := starts rfl layer
      refine ⟨parsed, made, handles, passes, fun node start held quiet => stays node start held ?_⟩
      exact fun other member => quiet other (List.mem_append_left _ member)
    · have member : found ∈ [call] := by simp [new]
      exact absurd (List.mem_singleton.1 member ▸ layer) other
  · rintro past call inner tracker lines parsed after ⟨closed, starts⟩ here quiet taken
    refine ⟨taken.concluded.closed (taken.edited.closed taken.closed), ?_⟩
    intro earlier found later split layer
    rcases split_append split with ⟨between, rfl, rfl⟩ | ⟨first, new⟩
    · obtain ⟨parsed', made, handles, passes, stays⟩ := starts rfl layer
      refine ⟨parsed', made, handles, passes, fun node start held unrenewed => ?_⟩
      have before := stays node start held fun other member =>
        unrenewed other (List.mem_append_left _ member)
      have inside : call ∈ between ++ call :: inner := by simp
      exact (taken.passes before).kept (unrenewed call inside here)
    · cases first with
      | nil =>
        cases new
        exact ⟨parsed, after, taken.handles, fun node start held => taken.passes held,
          fun node start held _ => held⟩
      | cons other rest =>
        have inside : found ∈ inner := by simp [(List.cons.inj new).2]
        exact absurd layer (quiet found inside)

/-- A start that the layer has written stays through the render of a source, unless a later block does
nothing but move its element, which was not the one stamped last, to the end. It is then the start of
that block. -/
theorem starts_pass {differ : Alignment.Differ} {between : List Stage} {compiler : Compiler}
    {actors : List Actor} (staged : Staged differ settings between compiler)
    (acted : compiler.handlers.items = actors.map (·.handler))
    (known : ∀ actor ∈ actors, actor = layer settings ∨ actor ∈ Grammar.actors ∨
      ∃ mover : Mover, mover.name ≠ "offsets" ∧ actor = mover.actor) (source : Text) :
    ∃ log session, compiler.calls actors source = .ok (log, session) ∧
      compiler.render source = .ok session ∧
      StartsPass settings compiler.handlers.parseBlocks log session := by
  have company : Company settings True actors := by
    intro actor member
    rcases known actor member with same | grammar | ⟨mover, named, rfl⟩
    · exact .inl same
    · exact .inr (beside_grammar actor grammar)
    · exact .inr (beside_mover named)
  have start : (startSession differ settings between source).tree.Closed ∧
      StartsPass settings compiler.handlers.parseBlocks []
        (startSession differ settings between source) := by
    rw [staged.tree_startSession]
    refine ⟨Tree.closed_empty, fun split => ?_⟩
    simp at split
  obtain ⟨log, session, told, rendered, -, starts⟩ :=
    company.exists_calls staged acted startsPass_kept source start
  exact ⟨log, session, told, rendered, starts⟩

/-- A paragraph that is moved behind another one starts where the block does that is appended to it. -/
theorem starts_pass_moved :
    let mover : Mover :=
      { name := "promote", takes := fun _ _ block => block.head? = some '^'
        chosen? := fun session parent _ => (session.tree.childrenOf parent).head?.map (parent, ·)
        addition := fun block => ' ' :: block
        child_mem := by
          intro session parent _ place child chosen
          obtain ⟨first, here, same⟩ := Option.map_eq_some_iff.1 chosen
          cases same
          exact List.mem_of_mem_head? here }
    let compiler := (extension {} .grammar).addHandler 60 mover.handler
    let actors := layer {} :: (Grammar.actors.take 3 ++ mover.actor :: Grammar.actors.drop 3)
    let source := "first\n\nsecond\n\n^ more".toList
    ∃ log session, compiler.calls actors source = .ok (log, session) ∧
      compiler.render source = .ok session ∧
      ∃ call ∈ log, start? {} call.session.tree 1 = some "0".toList ∧
        (∃ origin, call.Renews compiler.handlers.parseBlocks 1 origin) ∧
        start? {} session.tree 1 = some "15".toList := by
  intro mover compiler actors source
  have known : ∀ actor ∈ actors, actor = layer {} ∨ actor ∈ Grammar.actors ∨
      ∃ mover : Mover, mover.name ≠ "offsets" ∧ actor = mover.actor := by
    intro actor member
    simp only [actors, List.mem_cons, List.mem_append] at member
    rcases member with same | front | same | back
    · exact .inl same
    · exact .inr (.inl (List.mem_of_mem_take front))
    · exact .inr (.inr ⟨mover, by decide, same⟩)
    · exact .inr (.inl (List.mem_of_mem_drop back))
  have staged : Staged .shortest {} [] compiler := ⟨rfl, by simp⟩
  obtain ⟨log, session, told, rendered, starts⟩ := starts_pass staged rfl known source
  have shape : ((compiler.calls actors source).toOption.map fun found =>
      (found.1.map fun call => (call.handler, start? {} call.session.tree 1),
        start? {} found.2.tree 1)) =
      some ([("offsets", none), ("paragraph", none), ("offsets", some "0".toList),
        ("paragraph", some "0".toList)] ++
        [("offsets", some "0".toList), ("promote", some "0".toList)], some "15".toList) := by
    decide +kernel
  rw [told] at shape
  obtain ⟨calls, last⟩ := Prod.mk.inj (Option.some.inj shape)
  obtain ⟨earlier, rest, rfl, -, third⟩ := List.map_eq_append_iff.1 calls
  obtain ⟨call, later, rfl, facts, others⟩ := List.map_eq_cons_iff.1 third
  obtain ⟨layer, before⟩ := Prod.mk.inj facts
  obtain ⟨parsed, after, -, passes, stays⟩ := starts rfl layer
  have quiet : ∀ other ∈ later, other.handler ≠ "offsets" := by
    obtain ⟨other, none, rfl, same, nothing⟩ := List.map_eq_cons_iff.1 others
    cases List.map_eq_nil_iff.1 nothing
    rw [List.forall_mem_singleton, (Prod.mk.inj same).1]
    decide
  refine ⟨_, session, told, rendered, call, by simp, before, ?_, last⟩
  -- Were the start not renewed, it would still stand at the end.
  by_contra unrenewed
  have kept := (passes 1 _ before).kept fun origin renews => unrenewed ⟨origin, renews⟩
  have there := stays 1 _ kept fun other member layer => absurd layer (quiet other member)
  exact absurd (there.symm.trans last) (by decide)

end Offsets

end Tracemark
