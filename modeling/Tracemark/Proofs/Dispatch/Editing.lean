import Tracemark.Proofs.Dispatch.Calls
import Tracemark.Proofs.Tree.Edit

/-! Handlers that edit.

A handler edits if all that it does between the parses it asks for is to edit the tree. A history is the
calls that a run has told so far with the session that it has come to. What is kept as calls are added
to a history and trees are edited is then carried through a whole run, past every handler that edits; of
each other handler it remains to be shown.
-/

set_option autoImplicit false

namespace Tracemark

variable {α β : Type} {moves : Prop} {before middle after last : Session} {parent : NodeId}
  {block : Text} {rest : List Text}

structure Session.Edits (moves : Prop) (before after : Session) : Prop where
  tree : Tree.Edited moves before.tree after.tree
  tracker? : after.tracker? = before.tracker?

namespace Session.Edits

theorem refl (session : Session) : Session.Edits moves session session := ⟨.refl, rfl⟩

theorem trans (first : Session.Edits moves before middle) (second : Session.Edits moves middle after) :
    Session.Edits moves before after :=
  ⟨first.tree.trans second.tree, second.tracker?.trans first.tracker?⟩

theorem setTree {tree : Tree} (edited : Tree.Edited moves before.tree tree) :
    Session.Edits moves before (before.setTree tree) :=
  ⟨edited, rfl⟩

end Session.Edits

namespace Script

def Edits (moves : Prop) (ends : Session → α → Prop) : Script α → Session → Prop
  | done result, last => ∀ value, result = .ok value → ends last value
  | parse session parent _ next, last =>
    Session.Edits moves last session ∧ parent < session.tree.size ∧
      ∀ after, session.tree.size ≤ after.tree.size → (next after).Edits moves ends after

variable {ends : Session → α → Prop} {later : Session → β → Prop}

theorem edits_pure {value : α} (ended : ends last value) :
    (pure value : Script α).Edits moves ends last := by
  intro other same
  cases same
  exact ended

theorem edits_reparse {session : Session} {queue : List Text} (edits : Session.Edits moves last session)
    (valid : parent < session.tree.size) : (reparse session parent queue).Edits moves
      (fun last after => after = last ∧ session.tree.size ≤ last.tree.size) last :=
  ⟨edits, valid, fun _ size_le => edits_pure ⟨rfl, size_le⟩⟩

theorem Edits.bind {script : Script α} {next : α → Script β} (first : script.Edits moves ends last)
    (second : ∀ last value, ends last value → (next value).Edits moves later last) :
    (script >>= next).Edits moves later last := by
  change (script.bind next).Edits moves later last
  induction script generalizing last with
  | done result =>
    cases result with
    | error fault => exact nofun
    | ok value => exact second last value (first value rfl)
  | parse session parent queue more ih =>
    exact ⟨first.1, first.2.1, fun after size_le => ih after (first.2.2 after size_le)⟩

theorem edits_lift_bind {result : Except Fault α} {next : α → Script β}
    (edits : ∀ value, result = .ok value → (next value).Edits moves later last) :
    ((liftM result : Script α) >>= next).Edits moves later last := by
  cases result with
  | error fault => exact nofun
  | ok value => exact edits value rfl

end Script

def Actor.Edits (moves : Prop) (actor : Actor) : Prop :=
  ∀ ⦃session : Session⦄ ⦃parent : NodeId⦄ (block : Text) (rest : List Text),
    parent < session.tree.size → (actor.script session parent block rest).Edits moves
      (fun last outcome => Session.Edits moves last outcome.session) session

/-! Histories. -/

section

variable {holds : List Call → Session → Prop} {past inner : List Call} {calling : Calling}
  {around : List String} {queue : List Text} {actor : Actor} {actors others : List Actor}
  {session : Session}

/-- A history that a longer one goes on from, in which no element is lost. -/
def Carried (holds : List Call → Session → Prop) (past : List Call) (before after : Session) : Prop :=
  holds past after ∧ before.tree.size ≤ after.tree.size

def Calling.Carries (holds : List Call → Session → Prop) (calling : Calling) : Prop :=
  ∀ ⦃past : List Call⦄ ⦃around : List String⦄ ⦃session : Session⦄ ⦃parent : NodeId⦄
    ⦃queue : List Text⦄ ⦃inner : List Call⦄ ⦃after : Session⦄, holds past session →
    parent < session.tree.size → calling around session parent queue = .ok (inner, after) →
    Carried holds (past ++ inner) session after

def Actor.Carries (holds : List Call → Session → Prop) (calling : Calling) (actor : Actor) : Prop :=
  ∀ ⦃past : List Call⦄ ⦃around : List String⦄ ⦃session : Session⦄ ⦃parent : NodeId⦄
    ⦃block : Text⦄ ⦃rest : List Text⦄ ⦃inner : List Call⦄ ⦃outcome : Outcome⦄, holds past session →
    parent < session.tree.size → actor.handler.accepts session parent block = true →
    (actor.script session parent block rest).calls (calling (actor.handler.name :: around)) =
      .ok (inner, outcome) →
    Carried holds (past ++ ⟨actor.handler.name, around, session, parent, block⟩ :: inner) session
      outcome.session

theorem Script.Edits.carry {ends : Session → α → Prop} {script : Script α} {value : α}
    (edits : script.Edits moves ends last) (carries : calling.Carries holds)
    (stable : ∀ {past before after}, holds past before → Session.Edits moves before after →
      holds past after)
    (start : holds past last) (ran : script.calls (calling around) = .ok (inner, value)) :
    ∃ final, Carried holds (past ++ inner) last final ∧ ends final value := by
  induction script generalizing past last inner with
  | done result =>
    cases result with
    | error fault => cases ran
    | ok found =>
      cases ran
      rw [List.append_nil]
      exact ⟨last, ⟨start, Nat.le_refl _⟩, edits _ rfl⟩
  | parse session parent queue next ih =>
    obtain ⟨between, valid, back⟩ := edits
    obtain ⟨⟨first, after⟩, parsed, ran⟩ := exists_of_bind ran
    obtain ⟨⟨second, found⟩, told, ran⟩ := exists_of_bind ran
    cases ran
    obtain ⟨holds_after, size_le⟩ := carries (stable start between) valid parsed
    obtain ⟨final, ⟨holds_final, size_le'⟩, ended⟩ := ih after (back after size_le) holds_after told
    rw [← List.append_assoc]
    refine ⟨final, ⟨holds_final, ?_⟩, ended⟩
    exact Nat.le_trans between.tree.size_le (Nat.le_trans size_le size_le')

theorem Actor.Edits.carries (edits : actor.Edits moves) (carries : calling.Carries holds)
    (stable : ∀ {past before after}, holds past before → Session.Edits moves before after →
      holds past after)
    (entered : ∀ {past around session parent block}, holds past session →
      parent < session.tree.size →
      holds (past ++ [⟨actor.handler.name, around, session, parent, block⟩]) session) :
    actor.Carries holds calling := by
  intro past around session parent block rest inner outcome start valid _ ran
  obtain ⟨final, ⟨holds_final, size_le⟩, ended⟩ :=
    (edits block rest valid).carry carries stable (entered start valid) ran
  rw [List.append_assoc] at holds_final
  exact ⟨stable holds_final ended, Nat.le_trans size_le ended.tree.size_le⟩

namespace Dispatch

theorem carried_of_offerCalls (each : ∀ actor ∈ actors, actor.Carries holds calling)
    {found : List Call × Session × List Text} (start : holds past session)
    (valid : parent < session.tree.size)
    (ran : offerCalls calling around parent block rest actors session = .ok found) :
    Carried holds (past ++ found.1) session found.2.1 := by
  induction actors generalizing past session found with
  | nil =>
    cases ran
    rw [List.append_nil]
    exact ⟨start, Nat.le_refl _⟩
  | cons actor others ih =>
    rw [List.forall_mem_cons] at each
    rw [offerCalls] at ran
    by_cases accepted : actor.handler.accepts session parent block = true
    · simp only [accepted, if_true] at ran
      obtain ⟨⟨calls, outcome⟩, told, ran⟩ := exists_of_bind ran
      have here := each.1 start valid accepted told
      cases outcome with
      | handled session queue =>
        cases ran
        exact here
      | declined middle =>
        obtain ⟨later, others, ran⟩ := exists_of_bind ran
        cases ran
        obtain ⟨holds_after, size_le⟩ := ih each.2 here.1 (Nat.lt_of_lt_of_le valid here.2) others
        rw [List.append_assoc] at holds_after
        exact ⟨holds_after, Nat.le_trans here.2 size_le⟩
    · simp only [accepted, Bool.false_eq_true, if_false] at ran
      exact ih each.2 start valid ran

/-- What every handler carries is carried through a run. -/
theorem calls_carry {budget : Nat} (each : ∀ actor ∈ actors, ∀ budget,
      Calling.Carries holds (calls actors budget) → actor.Carries holds (calls actors budget)) :
    Calling.Carries holds (calls actors budget) := by
  induction budget with
  | zero =>
    intro past around session parent queue inner after start valid ran
    cases ran
  | succ budget ih =>
    intro past around session parent queue inner after start valid ran
    cases queue with
    | nil =>
      cases ran
      rw [List.append_nil]
      exact ⟨start, Nat.le_refl _⟩
    | cons block rest =>
      obtain ⟨⟨first, middle, queue⟩, offered, ran⟩ := exists_of_bind ran
      obtain ⟨⟨later, final⟩, others, ran⟩ := exists_of_bind ran
      cases ran
      obtain ⟨holds_middle, size_le⟩ := carried_of_offerCalls
        (fun actor member => each actor member budget ih) start valid offered
      obtain ⟨holds_after, size_le'⟩ := ih holds_middle (Nat.lt_of_lt_of_le valid size_le) others
      rw [List.append_assoc] at holds_after
      exact ⟨holds_after, Nat.le_trans size_le size_le'⟩

end Dispatch

end

end Tracemark
