import Tracemark.Compiler

/-! The calls of a run.

A run of the parser goes in and out of handlers, as they have text parsed again. An actor is a handler
whose run is given by a script: what it has parsed, and what it does with the session that comes back.
From its scripts the calls of a run can be told, each with the handlers that are at work around it. The
calls are told beside the run and change nothing about it.
-/

set_option autoImplicit false

namespace Tracemark

variable {α β : Type}

/-- What a handler does: it ends, or it has a queue parsed and goes on with the session it gets. -/
inductive Script (α : Type) where
  | done (result : Except Fault α)
  | parse (session : Session) (parent : NodeId) (queue : List Text) (next : Session → Script α)

namespace Script

def bind : Script α → (α → Script β) → Script β
  | done (.ok value), next => next value
  | done (.error fault), _ => done (.error fault)
  | parse session parent queue more, next =>
    parse session parent queue fun after => (more after).bind next

instance : Monad Script where
  pure value := done (.ok value)
  bind := Script.bind

instance : MonadLift (Except Fault) Script := ⟨done⟩

def reparse : Session → NodeId → List Text → Script Session :=
  fun session parent queue => parse session parent queue pure

def run (parser : Reparse) : Script α → Except Fault α
  | done result => result
  | parse session parent queue next => do (next (← parser session parent queue)).run parser

@[simp] theorem run_pure (parser : Reparse) (value : α) :
    run parser (pure value : Script α) = pure value :=
  rfl

@[simp] theorem run_lift (parser : Reparse) (result : Except Fault α) :
    run parser (liftM result : Script α) = result :=
  rfl

@[simp] theorem run_reparse (parser : Reparse) (session : Session) (parent : NodeId)
    (queue : List Text) : run parser (reparse session parent queue) = parser session parent queue := by
  change (parser session parent queue).bind Except.ok = _
  cases parser session parent queue <;> rfl

@[simp] theorem run_bind (parser : Reparse) (script : Script α) (next : α → Script β) :
    run parser (script >>= next) = script.run parser >>= fun value => (next value).run parser := by
  change run parser (script.bind next) = (script.run parser).bind _
  induction script with
  | done result => cases result <;> rfl
  | parse session parent queue more ih =>
    simp only [bind, run]
    change (parser session parent queue).bind _ = ((parser session parent queue).bind _).bind _
    cases parser session parent queue with
    | error fault => rfl
    | ok after => exact ih after

/-- All that a script has parsed is in order, and so is what it ends with, provided that what it gets
back is in order. -/
def Within (holds : Session → Prop) (ends : α → Prop) : Script α → Prop
  | done result => ∀ value, result = .ok value → ends value
  | parse session _ _ next => holds session ∧ ∀ after, holds after → (next after).Within holds ends

variable {holds : Session → Prop} {middle ends : α → Prop} {later : β → Prop}

theorem within_pure {value : α} (ended : ends value) : (pure value : Script α).Within holds ends := by
  intro other same
  cases same
  exact ended

theorem within_lift (result : Except Fault α) :
    (liftM result : Script α).Within holds fun _ => True :=
  fun _ _ => trivial

theorem within_reparse {session : Session} {parent : NodeId} {queue : List Text}
    (start : holds session) : (reparse session parent queue).Within holds holds :=
  ⟨start, fun _ after => within_pure after⟩

theorem Within.bind {script : Script α} {next : α → Script β} (first : script.Within holds middle)
    (second : ∀ value, middle value → (next value).Within holds later) :
    (script >>= next).Within holds later := by
  change (script.bind next).Within holds later
  induction script with
  | done result =>
    cases result with
    | error fault => exact nofun
    | ok value => exact second value (first value rfl)
  | parse session parent queue more ih =>
    exact ⟨first.1, fun after back => ih after (first.2 after back)⟩

end Script

def Outcome.session : Outcome → Session
  | handled session _ => session
  | declined session => session

structure Actor where
  handler : Handler
  script : Session → NodeId → Text → List Text → Script Outcome
  run_eq : ∀ parser session parent block rest,
    handler.run parser session parent block rest = (script session parent block rest).run parser

structure Call where
  handler : String
  /-- The handlers that were at work, the innermost first. -/
  around : List String
  session : Session
  parent : NodeId
  block : Text

/-- Parsing that tells its calls. It is told the handlers at work around it. -/
abbrev Calling := List String → Session → NodeId → List Text → Except Fault (List Call × Session)

def Script.calls (parser : Session → NodeId → List Text → Except Fault (List Call × Session)) :
    Script α → Except Fault (List Call × α)
  | done result => result.map ([], ·)
  | parse session parent queue next => do
    let (calls, after) ← parser session parent queue
    let (later, value) ← (next after).calls parser
    return (calls ++ later, value)

theorem Script.calls_parse_done
    {parser : Session → NodeId → List Text → Except Fault (List Call × Session)} {session after : Session}
    {parent : NodeId} {queue : List Text} {next : Session → Script α} {calls : List Call} {value : α}
    (parsed : parser session parent queue = .ok (calls, after)) (ended : next after = .done (.ok value)) :
    (parse session parent queue next).calls parser = .ok (calls, value) := by
  rw [Script.calls, parsed]
  change Except.bind ((next after).calls parser) _ = _
  rw [ended]
  change Except.ok (calls ++ [], value) = _
  rw [List.append_nil]

namespace Dispatch

def offerCalls (parser : Calling) (around : List String) (parent : NodeId) (block : Text)
    (rest : List Text) : List Actor → Session → Except Fault (List Call × Session × List Text)
  | [], session => return ([], session, rest)
  | actor :: others, session => do
    let name := actor.handler.name
    if actor.handler.accepts session parent block then
      let (calls, outcome) ←
        (actor.script session parent block rest).calls (parser (name :: around))
      let calls := ⟨name, around, session, parent, block⟩ :: calls
      match outcome with
      | .handled session queue => return (calls, session, queue)
      | .declined session =>
        let (later, result) ← offerCalls parser around parent block rest others session
        return (calls ++ later, result)
    else offerCalls parser around parent block rest others session

theorem offerCalls_of_rejected {calling : Calling} {around : List String} {parent : NodeId}
    {block : Text} {rest : List Text} {actor : Actor} {others : List Actor} {session : Session}
    (rejected : actor.handler.accepts session parent block = false) :
    offerCalls calling around parent block rest (actor :: others) session =
      offerCalls calling around parent block rest others session := by
  simp only [offerCalls, rejected, Bool.false_eq_true, if_false]

def calls (actors : List Actor) : (budget : Nat) → Calling
  | 0, _, _, _, _ => throw .exhausted
  | _ + 1, _, session, _, [] => return ([], session)
  | budget + 1, around, session, parent, block :: rest => do
    let (first, session, queue) ←
      offerCalls (calls actors budget) around parent block rest actors session
    let (later, session) ← calls actors budget around session parent queue
    return (first ++ later, session)

end Dispatch

def Compiler.calls (compiler : Compiler) (actors : List Actor) (source : Text) :
    Except Fault (List Call × Session) :=
  let (session, lines) := Stage.runAll compiler.stages.items .new source.lines
  let queue := (Text.joinLines lines).blocks
  Dispatch.calls actors (Dispatch.weight queue + compiler.handlers.size + 1) [] session Tree.root queue

/-! What is told is the run. -/

theorem exists_of_bind {first : Except Fault α} {next : α → Except Fault β} {value : β}
    (ran : first.bind next = .ok value) : ∃ middle, first = .ok middle ∧ next middle = .ok value := by
  cases first with
  | error fault => cases ran
  | ok middle => exact ⟨middle, rfl, ran⟩

theorem exists_of_map {first : Except Fault α} {change : α → β} {value : β}
    (ran : first.map change = .ok value) : ∃ middle, first = .ok middle ∧ change middle = value := by
  cases first with
  | error fault => cases ran
  | ok middle => exact ⟨middle, rfl, Except.ok.inj ran⟩

variable {parser : Reparse} {calling : Calling} {actors : List Actor} {around : List String}
  {session : Session} {parent : NodeId} {block : Text} {queue rest : List Text}

theorem Script.map_calls {calling : Session → NodeId → List Text → Except Fault (List Call × Session)}
    (same : ∀ session parent queue,
      (calling session parent queue).map (·.2) = parser session parent queue)
    (script : Script α) : (script.calls calling).map (·.2) = script.run parser := by
  induction script with
  | done result => cases result <;> rfl
  | parse session parent queue next ih =>
    rw [calls, run, ← same]
    cases calling session parent queue with
    | error fault => rfl
    | ok found =>
      change Except.map _ (((next found.2).calls calling).bind _) = (next found.2).run parser
      rw [← ih found.2]
      cases (next found.2).calls calling <;> rfl

namespace Dispatch

theorem map_offerCalls
    (same : ∀ around session parent queue,
      (calling around session parent queue).map (·.2) = parser session parent queue) :
    (offerCalls calling around parent block rest actors session).map (·.2) =
      offer parser parent block rest (actors.map (·.handler)) session := by
  induction actors generalizing session with
  | nil => rfl
  | cons actor others ih =>
    rw [offerCalls, List.map_cons, offer]
    by_cases accepted : actor.handler.accepts session parent block = true
    · simp only [accepted, if_true]
      rw [actor.run_eq, ← Script.map_calls (same (actor.handler.name :: around))]
      cases (actor.script session parent block rest).calls
          (calling (actor.handler.name :: around)) with
      | error fault => rfl
      | ok found =>
        obtain ⟨calls, outcome⟩ := found
        cases outcome with
        | handled session queue => rfl
        | declined session =>
          change Except.map _ ((offerCalls calling around parent block rest others session).bind _) =
            offer parser parent block rest (others.map (·.handler)) session
          rw [← ih]
          cases offerCalls calling around parent block rest others session <;> rfl
    · simp only [accepted, Bool.false_eq_true, if_false]
      exact ih

theorem map_calls (actors : List Actor) (budget : Nat) (around : List String) (session : Session)
    (parent : NodeId) (queue : List Text) :
    (calls actors budget around session parent queue).map (·.2) =
      run (actors.map (·.handler)) budget session parent queue := by
  induction budget generalizing around session parent queue with
  | zero => rfl
  | succ budget ih =>
    cases queue with
    | nil => rfl
    | cons block rest =>
      rw [calls, run, ← map_offerCalls ih]
      cases offerCalls (calls actors budget) around parent block rest actors session with
      | error fault => rfl
      | ok found =>
        obtain ⟨first, session, queue⟩ := found
        change Except.map _ ((calls actors budget around session parent queue).bind _) =
          run (actors.map (·.handler)) budget session parent queue
        rw [← ih]
        cases calls actors budget around session parent queue <;> rfl

end Dispatch

theorem Compiler.map_calls {compiler : Compiler} (acted : compiler.handlers.items = actors.map (·.handler))
    (source : Text) : (compiler.calls actors source).map (·.2) = compiler.render source := by
  rw [calls, Dispatch.map_calls, ← acted]
  rfl

/-! What holds of every call. -/

section

variable {holds : Session → Prop} {sound : Call → Prop}

theorem Script.sound_of_calls {ends : α → Prop}
    {calling : Session → NodeId → List Text → Except Fault (List Call × Session)}
    (keeps : ∀ session parent queue found, holds session → calling session parent queue = .ok found →
      (∀ call ∈ found.1, sound call) ∧ holds found.2)
    {script : Script α} (inside : script.Within holds ends) {found : List Call × α}
    (ran : script.calls calling = .ok found) : (∀ call ∈ found.1, sound call) ∧ ends found.2 := by
  induction script generalizing found with
  | done result =>
    cases result with
    | error fault => cases ran
    | ok value =>
      cases ran
      exact ⟨by simp, inside value rfl⟩
  | parse session parent queue next ih =>
    obtain ⟨parsed, first, ran⟩ := exists_of_bind ran
    obtain ⟨ended, second, ran⟩ := exists_of_bind ran
    cases ran
    obtain ⟨sound, back⟩ := keeps _ _ _ _ inside.1 first
    obtain ⟨sound', result⟩ := ih parsed.2 (inside.2 parsed.2 back) second
    exact ⟨List.forall_mem_append.2 ⟨sound, sound'⟩, result⟩

def Actor.Keeps (holds : Session → Prop) (sound : Call → Prop) (actor : Actor) : Prop :=
  ∀ around session parent block rest, holds session →
    actor.handler.accepts session parent block = true →
    sound ⟨actor.handler.name, around, session, parent, block⟩ ∧
      (actor.script session parent block rest).Within holds fun outcome => holds outcome.session

namespace Dispatch

variable (keep : ∀ actor ∈ actors, actor.Keeps holds sound)

include keep

theorem sound_of_offerCalls
    (inner : ∀ around session parent queue found, holds session →
      calling around session parent queue = .ok found →
      (∀ call ∈ found.1, sound call) ∧ holds found.2)
    (start : holds session) {found : List Call × Session × List Text}
    (ran : offerCalls calling around parent block rest actors session = .ok found) :
    (∀ call ∈ found.1, sound call) ∧ holds found.2.1 := by
  induction actors generalizing session found with
  | nil =>
    cases ran
    exact ⟨by simp, start⟩
  | cons actor others ih =>
    rw [List.forall_mem_cons] at keep
    rw [offerCalls] at ran
    by_cases accepted : actor.handler.accepts session parent block = true
    · obtain ⟨here, script⟩ := keep.1 around session parent block rest start accepted
      simp only [accepted, if_true] at ran
      obtain ⟨⟨calls, outcome⟩, told, ran⟩ := exists_of_bind ran
      obtain ⟨inside, after⟩ := Script.sound_of_calls (inner _) script told
      have first := List.forall_mem_cons.2 ⟨here, inside⟩
      cases outcome with
      | handled session queue =>
        cases ran
        exact ⟨first, after⟩
      | declined session =>
        obtain ⟨later, others, ran⟩ := exists_of_bind ran
        cases ran
        obtain ⟨second, after⟩ := ih keep.2 after others
        exact ⟨List.forall_mem_append.2 ⟨first, second⟩, after⟩
    · simp only [accepted, Bool.false_eq_true, if_false] at ran
      exact ih keep.2 start ran

/-- What all actors keep is kept by a run, and the calls of the run are sound. -/
theorem sound_of_calls {budget : Nat} (start : holds session) {found : List Call × Session}
    (ran : calls actors budget around session parent queue = .ok found) :
    (∀ call ∈ found.1, sound call) ∧ holds found.2 := by
  induction budget generalizing around session parent queue found with
  | zero => cases ran
  | succ budget ih =>
    cases queue with
    | nil =>
      cases ran
      exact ⟨by simp, start⟩
    | cons block rest =>
      obtain ⟨⟨first, middle, queue⟩, offered, ran⟩ := exists_of_bind ran
      obtain ⟨later, others, ran⟩ := exists_of_bind ran
      cases ran
      obtain ⟨here, after⟩ := sound_of_offerCalls keep
        (fun _ _ _ _ _ start ran => ih start ran) start offered
      obtain ⟨there, after⟩ := ih after others
      exact ⟨List.forall_mem_append.2 ⟨here, there⟩, after⟩

end Dispatch

end

end Tracemark
