import Tracemark.Proofs.Grammar.Ending
import Tracemark.Proofs.Offsets.Crew
import Tracemark.Proofs.Offsets.Handling

/-! Dispatch ends.

The layer hands a block on as it is, so what it has parsed again weighs as much as the block. But while
a block is handed on the layer accepts nothing, and the handlers of the grammar end by themselves. A run
over handlers of the grammar and the layer therefore ends within a budget of one more than the weight of
its queue, in any order of the handlers, under any element of a closed tree, and with any tracker.
-/

set_option autoImplicit false

namespace Tracemark.Offsets

open Tracemark.Dispatch (Ends bulk offer run run_ends_succ weight weight_cons weight_nil)
open Tracemark.Grammar (members)

variable {settings : Settings} {tree : Tree} {parent : NodeId} {block : Text} {rest : List Text}
  {first second : Reparse} {session after : Session} {bound : Nat}

def Quiet (tracker? : Option Tracker) : Prop :=
  ∀ tracker ∈ tracker?, tracker.guard = .prerendering

/-! The layer. -/

theorem attributor_ends (settings : Settings)
    (inner : Ends Quiet (weight [block] + 1) first second) :
    (attributor settings).Ends (fun _ => True) first second block := by
  intro session parent rest sound valid _
  have script : ((layer settings).script session parent block rest).Ends Quiet (weight [block] + 1)
      (Outcome.Settled (fun _ => True) session block rest) := by
    unfold layer
    simp only
    split
    · exact Script.ends_pure sound.leads
    · next span claimed found =>
      have children : (liftM (session.tree.children parent) : Script _).Ends Quiet
          (weight [block] + 1) fun _ => True := ⟨_, Tree.children_eq_ok valid, trivial⟩
      refine children.bind fun _ _ => ?_
      let busy := session.setTracker { claimed with guard := claimed.guard.enter }
      have quiet : busy.Sound Quiet := by
        refine ⟨?_, sound.closed⟩
        rw [Session.tracker?_setTracker]
        intro tracker same
        cases same
        rfl
      refine Script.Ends.bind (Script.ends_reparse quiet valid (Nat.lt_succ_self _)) fun after leads => ?_
      obtain ⟨final, concluded, ran⟩ :=
        exists_concluded settings found valid leads.sound.closed leads.size_le
      refine Script.ends_lift ⟨_, ran rest, ⟨⟨trivial, concluded.closed leads.sound.closed⟩, ?_⟩, .all⟩
      exact leads.size_le.trans_eq concluded.size_eq.symm
  obtain ⟨outcome, ran, ran', settled⟩ := script.run inner
  rw [← (layer settings).run_eq] at ran ran'
  exact ⟨outcome, ran, ran', settled⟩

theorem attributor_rejects (settings : Settings) (quiet : Quiet session.tracker?) :
    (attributor settings).accepts session parent block = false := by
  cases tracked : session.tracker? with
  | none => simp [attributor, tracked]
  | some tracker => exact attributor_quiet tracked (quiet tracker tracked) session.tree parent block

/-! Runs. -/

section

variable {handlers : List Handler} {budget budget' : Nat}
  (known : ∀ handler ∈ handlers, handler.EndsBelow ∨ ∃ settings, handler = attributor settings)

include known

theorem run_ends_quiet (enough : bound ≤ budget) (enough' : bound ≤ budget') :
    Ends Quiet bound (run handlers budget) (run handlers budget') := by
  induction bound generalizing budget budget' with
  | zero => exact fun _ _ light => absurd light (Nat.not_lt_zero _)
  | succ bound ih =>
    obtain ⟨budget, rfl⟩ := Nat.exists_eq_add_of_le' enough
    obtain ⟨budget', rfl⟩ := Nat.exists_eq_add_of_le' enough'
    have inner : Ends Quiet bound (run handlers (budget + bound)) (run handlers (budget' + bound)) :=
      ih (Nat.le_add_left _ _) (Nat.le_add_left _ _)
    apply run_ends_succ inner
    intro handler member block small
    rcases known handler member with ends | ⟨settings, rfl⟩
    · exact ends (inner.mono small)
    · intro session parent rest sound _ accepted
      rw [attributor_rejects settings sound.holds] at accepted
      cases accepted

theorem each_ends (inner : Ends (fun _ => True) (weight [block]) first second)
    (quiet : handlers ≠ [] → Ends Quiet (weight [block] + 1) first second) :
    ∀ handler ∈ handlers, handler.Ends (fun _ => True) first second block := by
  intro handler member
  rcases known handler member with ends | ⟨settings, rfl⟩
  · exact ends inner
  · exact attributor_ends settings (quiet (List.ne_nil_of_mem member))

/-- The layer takes one step more of the budget than the others. -/
theorem run_ends (enough : bound + handlers.length ≤ budget)
    (enough' : bound + handlers.length ≤ budget') :
    Ends (fun _ => True) bound (run handlers budget) (run handlers budget') := by
  induction bound generalizing budget budget' with
  | zero => exact fun _ _ light => absurd light (Nat.not_lt_zero _)
  | succ bound ih =>
    rw [Nat.succ_add] at enough enough'
    obtain ⟨budget, rfl⟩ := Nat.exists_eq_add_of_le' enough
    obtain ⟨budget', rfl⟩ := Nat.exists_eq_add_of_le' enough'
    have inner : Ends (fun _ => True) bound (run handlers (budget + (bound + handlers.length)))
        (run handlers (budget' + (bound + handlers.length))) :=
      ih (Nat.le_add_left _ _) (Nat.le_add_left _ _)
    apply run_ends_succ inner
    intro handler member block small
    apply each_ends known (inner.mono small) _ handler member
    intro some_handler
    have one := List.length_pos_iff.2 some_handler
    apply run_ends_quiet known <;> omega

end

/-! Handlers in a registry. -/

section

variable {handlers : Handlers}
  (known : ∀ handler ∈ handlers.items, handler.EndsBelow ∨ ∃ settings, handler = attributor settings)

include known

theorem ends_parseBlocks {budget : Nat} (enough : bound + handlers.size ≤ budget) :
    Ends (fun _ => True) bound (run handlers.items budget) handlers.parseBlocks := by
  intro session parent queue sound valid light
  have size : handlers.items.length = handlers.size := List.length_map _
  apply run_ends known _ _ sound valid (Nat.lt_succ_self _) <;> omega

theorem ends_parseBlocks_quiet {budget : Nat} (enough : bound ≤ budget) :
    Ends Quiet bound (run handlers.items budget) handlers.parseBlocks := by
  intro session parent queue sound valid light
  apply run_ends_quiet known _ _ sound valid (Nat.lt_succ_self _) <;> omega

end

section

variable {handlers : Handlers}
  (known : ∀ handler ∈ handlers.items, handler ∈ members ∨ ∃ settings, handler = attributor settings)

include known

theorem known_ends : ∀ handler ∈ handlers.items,
    handler.EndsBelow ∨ ∃ settings, handler = attributor settings :=
  fun handler member => (known handler member).imp_left Grammar.members_end

theorem parseBlocks_ends {budget : Nat} (enough : bound + handlers.size ≤ budget) :
    Ends (fun _ => True) bound (run handlers.items budget) handlers.parseBlocks :=
  ends_parseBlocks (known_ends known) enough

theorem parseBlocks_cons (closed : session.tree.Closed) (valid : parent < session.tree.size) :
    handlers.parseBlocks session parent (block :: rest) =
      (offer handlers.parseBlocks parent block rest handlers.items session).bind
        fun (after, queue) => handlers.parseBlocks after parent queue := by
  let budget : Nat := weight (block :: rest) + handlers.size
  have sound : session.Sound fun _ => True := ⟨trivial, closed⟩
  have inner : Ends (fun _ => True) (weight (block :: rest)) (run handlers.items budget)
      handlers.parseBlocks := parseBlocks_ends known (Nat.le_refl _)
  have part : weight [block] ≤ weight (block :: rest) := by
    rw [weight_cons, weight_cons, weight_nil]
    omega
  have each : ∀ handler ∈ handlers.items,
      handler.Ends (fun _ => True) (run handlers.items budget) handlers.parseBlocks block := by
    apply each_ends (known_ends known) (inner.mono part)
    intro some_handler
    have one : 0 < handlers.size := by
      rw [← List.length_pos_iff, Registry.items, List.length_map] at some_handler
      exact some_handler
    apply ends_parseBlocks_quiet (known_ends known)
    omega
  obtain ⟨after, queue, offered, offered', leads, left⟩ := Dispatch.offer_ends each sound valid
  obtain ⟨final, ran, ran', -⟩ := inner leads.sound (leads.lt_size valid) left.weight_lt
  rw [offered']
  change run handlers.items (budget + 1) session parent (block :: rest) =
    handlers.parseBlocks after parent queue
  rw [run, offered, ran']
  exact ran

/-- Dispatch ends. A queue is parsed to the same end within any budget that is large enough, and by
the parser itself where the budget hides it; and a handler of the grammar takes each block that it
accepts, and leaves fewer octets and blocks. -/
theorem dispatch_ends (closed : session.tree.Closed) (valid : parent < session.tree.size) :
    (∀ queue, ∃ after, handlers.parseBlocks session parent queue = .ok after ∧
      ∀ budget, weight queue + handlers.size < budget →
        run handlers.items budget session parent queue = .ok after) ∧
    (∀ block rest, handlers.parseBlocks session parent (block :: rest) =
      (offer handlers.parseBlocks parent block rest handlers.items session).bind
        fun (after, queue) => handlers.parseBlocks after parent queue) ∧
    ∀ handler ∈ members, ∀ block rest, handler.accepts session parent block = true →
      ∃ after queue,
        handler.run handlers.parseBlocks session parent block rest = .ok (.handled after queue) ∧
          bulk queue < bulk (block :: rest) := by
  have sound : session.Sound fun _ => True := ⟨trivial, closed⟩
  refine ⟨fun queue => ?_, fun block rest => parseBlocks_cons known closed valid, ?_⟩
  · have parsed (budget : Nat) (enough : weight queue + handlers.size < budget) :
        ∃ after, run handlers.items budget session parent queue = .ok after ∧
          handlers.parseBlocks session parent queue = .ok after := by
      have bounded : weight queue + 1 + handlers.size ≤ budget := by omega
      obtain ⟨after, ran, ran', -⟩ :=
        parseBlocks_ends known bounded sound valid (Nat.lt_succ_self _)
      exact ⟨after, ran, ran'⟩
    obtain ⟨after, -, ran⟩ := parsed _ (Nat.lt_succ_self _)
    refine ⟨after, ran, fun budget enough => ?_⟩
    obtain ⟨other, ran', same⟩ := parsed budget enough
    cases ran.symm.trans same
    exact ran'
  · intro handler member block rest accepted
    have inner : Ends (fun _ => True) (weight [block])
        (run handlers.items (weight [block] + handlers.size)) handlers.parseBlocks :=
      parseBlocks_ends known (Nat.le_refl _)
    obtain ⟨after, queue, ran, left⟩ := Grammar.exists_taken member inner rest sound valid accepted
    exact ⟨after, queue, ran, left.bulk_lt⟩

end

theorem dispatch_ends_layered :
    let handlers : Handlers := Grammar.reference.register "offsets" 200 (attributor {})
    let lines := ["# a".toList, "b".toList]
    let session := Session.new.setTracker ((Tracker.ofLines lines).align .sequential lines)
    let block := Text.joinLines lines
    (∀ handler ∈ handlers.items, handler ∈ members ∨ ∃ settings, handler = attributor settings) ∧
      session.tree.Closed ∧ Tree.root < session.tree.size ∧
      (∃ after, handlers.parseBlocks session Tree.root [block] = .ok after) ∧
      Grammar.heading.accepts session Tree.root block = true ∧
      ∃ after queue, Grammar.heading.run handlers.parseBlocks session Tree.root block [] =
        .ok (.handled after queue) ∧ bulk queue < bulk [block] := by
  intro handlers lines session block
  have items : handlers.items = attributor {} :: members := rfl
  have known : ∀ handler ∈ handlers.items,
      handler ∈ members ∨ ∃ settings, handler = attributor settings := by
    rw [items]
    intro handler member
    exact (List.mem_cons.1 member).symm.imp_right fun same => ⟨{}, same⟩
  have valid : Tree.root < session.tree.size := Nat.one_pos
  have accepted : Grammar.heading.accepts session Tree.root block = true := rfl
  have closed : session.tree.Closed := Tree.closed_empty
  obtain ⟨parsed, -, taken⟩ := dispatch_ends known closed valid
  obtain ⟨after, ran, -⟩ := parsed [block]
  have member : Grammar.heading ∈ members := by simp [members]
  exact ⟨known, closed, valid, ⟨after, ran⟩, accepted, taken _ member block [] accepted⟩

end Tracemark.Offsets
