import Tracemark.Proofs.Dispatch.Calls
import Tracemark.Proofs.Dispatch.Pairing
import Tracemark.Proofs.Tree.Closed
import Tracemark.Text.Octets

/-! Runs that end.

A handler that takes a block leaves the rest of the queue, perhaps with an end of the block put back in
front, and what it has parsed again weighs less than the block. A script says so of one handler: it
ends for every parser that ends on less than the block. A run over such handlers ends, for any tree
whose links lead to elements of the tree, and a larger budget does not change what it comes to. What the
handlers need of the tracker, and keep, is left open.
-/

set_option autoImplicit false

namespace Tracemark

open Tracemark.Dispatch (weight weight_append weight_cons weight_nil)

variable {α β : Type} {holds : Option Offsets.Tracker → Prop} {bound : Nat} {first second : Reparse}
  {session before after : Session} {parent : NodeId} {block : Text} {queue rest : List Text}

/-! Queues. -/

theorem Text.octets_pos {text : Text} (some_char : text ≠ []) : 0 < text.octets := by
  obtain ⟨c, others, rfl⟩ := List.exists_cons_of_ne_nil some_char
  exact Nat.add_pos_left c.utf8Size_pos _

def Dispatch.bulk (queue : List Text) : Nat := Text.octets queue.flatten + queue.length

/-- What is left of a queue once its first block was taken. -/
inductive Remnant (block : Text) (rest : List Text) : List Text → Prop
  | all : Remnant block rest rest
  | part {head piece : Text} : head ≠ [] → block = head ++ piece → Remnant block rest (piece :: rest)

theorem Remnant.weight_lt (left : Remnant block rest queue) : weight queue < weight (block :: rest) := by
  cases left with
  | all =>
    rw [weight_cons]
    omega
  | @part head piece some_char same =>
    have shorter := List.length_pos_iff.2 some_char
    rw [same, weight_cons, weight_cons, List.length_append]
    omega

theorem Remnant.bulk_lt (left : Remnant block rest queue) :
    Dispatch.bulk queue < Dispatch.bulk (block :: rest) := by
  unfold Dispatch.bulk
  cases left with
  | all =>
    rw [List.flatten_cons, Text.octets_append, List.length_cons]
    omega
  | @part head piece some_char same =>
    have shorter := Text.octets_pos some_char
    rw [same]
    simp only [List.flatten_cons, List.length_cons, Text.octets_append]
    omega

/-! Sessions. -/

structure Session.Sound (holds : Option Offsets.Tracker → Prop) (session : Session) : Prop where
  holds : holds session.tracker?
  closed : session.tree.Closed

structure Session.Leads (holds : Option Offsets.Tracker → Prop) (before after : Session) : Prop where
  sound : after.Sound holds
  size_le : before.tree.size ≤ after.tree.size

theorem Session.Sound.leads (sound : session.Sound holds) : session.Leads holds session :=
  ⟨sound, Nat.le_refl _⟩

theorem Session.Leads.trans {middle : Session} (start : before.Leads holds middle)
    (rest : middle.Leads holds after) : before.Leads holds after :=
  ⟨rest.sound, Nat.le_trans start.size_le rest.size_le⟩

theorem Session.Leads.lt_size (leads : before.Leads holds after) (valid : parent < before.tree.size) :
    parent < after.tree.size :=
  Nat.lt_of_lt_of_le valid leads.size_le

theorem Session.Sound.setTree (sound : session.Sound holds) {tree : Tree} (closed : tree.Closed)
    (size_le : session.tree.size ≤ tree.size) : session.Leads holds (session.setTree tree) :=
  ⟨⟨sound.holds, closed⟩, size_le⟩

theorem Session.Sound.modify (sound : session.Sound holds) (id : NodeId)
    {change : Element → Element} (keeps : Tree.KeepsLinks change) :
    session.Leads holds (session.setTree (session.tree.modify id change)) :=
  sound.setTree (sound.closed.modify_links keeps) (Nat.le_of_eq Tree.size_modify.symm)

/-! Scripts. -/

def Dispatch.Ends (holds : Option Offsets.Tracker → Prop) (bound : Nat) (first second : Reparse) :
    Prop :=
  ∀ {session : Session} {parent : NodeId} {queue : List Text}, session.Sound holds →
    parent < session.tree.size → weight queue < bound →
    ∃ after, first session parent queue = .ok after ∧ second session parent queue = .ok after ∧
      session.Leads holds after

theorem Dispatch.Ends.mono {smaller : Nat} (ends : Dispatch.Ends holds bound first second)
    (less : smaller ≤ bound) : Dispatch.Ends holds smaller first second :=
  fun sound valid light => ends sound valid (Nat.lt_of_lt_of_le light less)

namespace Script

def Ends (holds : Option Offsets.Tracker → Prop) (bound : Nat) (ends : α → Prop) : Script α → Prop
  | done result => ∃ value, result = .ok value ∧ ends value
  | parse session parent queue next =>
    session.Sound holds ∧ parent < session.tree.size ∧ weight queue < bound ∧
      ∀ after, session.Leads holds after → (next after).Ends holds bound ends

variable {ends middle : α → Prop} {later : β → Prop}

theorem ends_pure {value : α} (ended : ends value) : (pure value : Script α).Ends holds bound ends :=
  ⟨value, rfl, ended⟩

theorem ends_lift {result : Except Fault α} (made : ∃ value, result = .ok value ∧ ends value) :
    (liftM result : Script α).Ends holds bound ends :=
  made

theorem ends_reparse (sound : session.Sound holds) (valid : parent < session.tree.size)
    (light : weight queue < bound) :
    (reparse session parent queue).Ends holds bound (session.Leads holds) :=
  ⟨sound, valid, light, fun _ leads => ends_pure leads⟩

theorem Ends.imp {script : Script α} (ended : script.Ends holds bound middle)
    (weaker : ∀ value, middle value → ends value) : script.Ends holds bound ends := by
  induction script with
  | done result =>
    obtain ⟨value, same, ended⟩ := ended
    exact ⟨value, same, weaker value ended⟩
  | parse session parent queue more ih =>
    obtain ⟨sound, valid, light, back⟩ := ended
    exact ⟨sound, valid, light, fun after leads => ih after (back after leads)⟩

theorem Ends.bind {script : Script α} {next : α → Script β} (start : script.Ends holds bound middle)
    (rest : ∀ value, middle value → (next value).Ends holds bound later) :
    (script >>= next).Ends holds bound later := by
  change (script.bind next).Ends holds bound later
  induction script with
  | done result =>
    obtain ⟨value, rfl, ended⟩ := start
    exact rest value ended
  | parse session parent queue more ih =>
    obtain ⟨sound, valid, light, back⟩ := start
    exact ⟨sound, valid, light, fun after leads => ih after (back after leads)⟩

theorem Ends.run {script : Script α} (inner : Dispatch.Ends holds bound first second)
    (ended : script.Ends holds bound ends) :
    ∃ value, script.run first = .ok value ∧ script.run second = .ok value ∧ ends value := by
  induction script with
  | done result =>
    obtain ⟨value, rfl, ended⟩ := ended
    exact ⟨value, rfl, rfl, ended⟩
  | parse session parent queue next ih =>
    obtain ⟨sound, valid, light, back⟩ := ended
    obtain ⟨after, ran, ran', leads⟩ := inner sound valid light
    obtain ⟨value, rest, rest', ended⟩ := ih after (back after leads)
    refine ⟨value, ?_, ?_, ended⟩
    · rw [Script.run, ran]
      exact rest
    · rw [Script.run, ran']
      exact rest'

end Script

/-! Handlers. -/

def Actor.Takes (actor : Actor) : Prop :=
  ∀ ⦃holds : Option Offsets.Tracker → Prop⦄ ⦃session : Session⦄ ⦃parent : NodeId⦄ ⦃block : Text⦄
    (rest : List Text), session.Sound holds → parent < session.tree.size →
    actor.handler.accepts session parent block = true →
    (actor.script session parent block rest).Ends holds (weight [block]) fun outcome =>
      ∃ after queue, outcome = .handled after queue ∧ session.Leads holds after ∧
        Remnant block rest queue

def Outcome.Settled (holds : Option Offsets.Tracker → Prop) (session : Session) (block : Text)
    (rest : List Text) : Outcome → Prop
  | handled after queue => session.Leads holds after ∧ Remnant block rest queue
  | declined after => session.Leads holds after

def Handler.Ends (holds : Option Offsets.Tracker → Prop) (first second : Reparse) (block : Text)
    (handler : Handler) : Prop :=
  ∀ ⦃session : Session⦄ ⦃parent : NodeId⦄ (rest : List Text), session.Sound holds →
    parent < session.tree.size → handler.accepts session parent block = true →
    ∃ outcome, handler.run first session parent block rest = .ok outcome ∧
      handler.run second session parent block rest = .ok outcome ∧
      outcome.Settled holds session block rest

def Handler.EndsBelow (handler : Handler) : Prop :=
  ∀ ⦃holds : Option Offsets.Tracker → Prop⦄ ⦃block : Text⦄ ⦃first second : Reparse⦄,
    Dispatch.Ends holds (weight [block]) first second → handler.Ends holds first second block

theorem Actor.Takes.run {actor : Actor} (takes : actor.Takes)
    (inner : Dispatch.Ends holds (weight [block]) first second) (rest : List Text)
    (sound : session.Sound holds) (valid : parent < session.tree.size)
    (accepted : actor.handler.accepts session parent block = true) :
    ∃ after queue, actor.handler.run first session parent block rest = .ok (.handled after queue) ∧
      actor.handler.run second session parent block rest = .ok (.handled after queue) ∧
      session.Leads holds after ∧ Remnant block rest queue := by
  obtain ⟨outcome, ran, ran', after, queue, rfl, leads, left⟩ :=
    (takes rest sound valid accepted).run inner
  rw [← actor.run_eq] at ran ran'
  exact ⟨after, queue, ran, ran', leads, left⟩

theorem Actor.Takes.endsBelow {actor : Actor} (takes : actor.Takes) : actor.handler.EndsBelow := by
  intro holds block first second inner session parent rest sound valid accepted
  obtain ⟨after, queue, ran, ran', leads, left⟩ := takes.run inner rest sound valid accepted
  exact ⟨_, ran, ran', leads, left⟩

namespace Dispatch

variable {handlers : List Handler}

theorem offer_ends (each : ∀ handler ∈ handlers, handler.Ends holds first second block)
    (sound : session.Sound holds) (valid : parent < session.tree.size) :
    ∃ after queue, offer first parent block rest handlers session = .ok (after, queue) ∧
      offer second parent block rest handlers session = .ok (after, queue) ∧
      session.Leads holds after ∧ Remnant block rest queue := by
  induction handlers generalizing session with
  | nil => exact ⟨session, rest, rfl, rfl, sound.leads, .all⟩
  | cons handler others ih =>
    obtain ⟨here, later⟩ := List.forall_mem_cons.1 each
    simp only [offer]
    by_cases accepted : handler.accepts session parent block = true
    · obtain ⟨outcome, ran, ran', settled⟩ := here rest sound valid accepted
      simp only [accepted, if_true, ran, ran']
      cases outcome with
      | handled after queue => exact ⟨after, queue, rfl, rfl, settled⟩
      | declined middle =>
        obtain ⟨after, queue, offered, offered', leads, left⟩ :=
          ih later settled.sound (settled.lt_size valid)
        exact ⟨after, queue, offered, offered', settled.trans leads, left⟩
    · simp only [accepted, Bool.false_eq_true, if_false]
      exact ih later sound valid

/-- Handlers that end on the next block end on a queue, as each block leaves less of it. -/
theorem run_ends_succ {budget budget' : Nat}
    (inner : Ends holds bound (run handlers budget) (run handlers budget'))
    (each : ∀ handler ∈ handlers, ∀ block, weight [block] ≤ bound →
      handler.Ends holds (run handlers budget) (run handlers budget') block) :
    Ends holds (bound + 1) (run handlers (budget + 1)) (run handlers (budget' + 1)) := by
  intro session parent queue sound valid light
  cases queue with
  | nil => exact ⟨session, rfl, rfl, sound.leads⟩
  | cons block rest =>
    have small : weight [block] ≤ bound := by
      rw [weight_cons] at light ⊢
      rw [weight_nil]
      omega
    obtain ⟨middle, queue, offered, offered', leads, left⟩ :=
      offer_ends (fun handler member => each handler member block small) sound valid
    have lighter : weight queue < bound :=
      Nat.lt_of_lt_of_le left.weight_lt (Nat.le_of_lt_succ light)
    obtain ⟨after, ran, ran', leads'⟩ := inner leads.sound (leads.lt_size valid) lighter
    refine ⟨after, ?_, ?_, leads.trans leads'⟩
    · rw [run, offered]
      exact ran
    · rw [run, offered']
      exact ran'

end Dispatch

end Tracemark
