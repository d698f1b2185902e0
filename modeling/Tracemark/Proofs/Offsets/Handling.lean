import Tracemark.Proofs.Offsets.Delegation
import Tracemark.Proofs.Offsets.Scanning

/-! Blocks that the layer handles.

The layer accepts a block only when it can claim lines for it. What it makes of the session in which the
block was parsed is told here by one relation, whatever the block was parsed by, and under any element
of a closed tree.
-/

set_option autoImplicit false

namespace Tracemark.Offsets

variable {settings : Settings} {tracker : Tracker} {session parsed after : Session} {parent node : NodeId}
  {block : Text} {before children : List NodeId} {lines : Interval}

/-! Claims. -/

theorem Tracker.exists_claim (wants : tracker.wants block = true) : ∃ lines : Interval,
    tracker.claim block = some (lines, { tracker with lastClaimed := some (lines.stop - 1) }) := by
  obtain ⟨-, line, claimable⟩ := Tracker.wants_iff.1 wants
  rcases tracker.claim_cases block with ⟨-, passed⟩ | ⟨run, claimed, -⟩
  · exact absurd claimable (passed line)
  · exact ⟨run, claimed⟩

theorem exists_claim_of_accepts (accepted : (attributor settings).accepts session parent block = true) :
    ∃ tracker lines, session.tracker? = some tracker ∧
      tracker.claim block = some (lines, { tracker with lastClaimed := some (lines.stop - 1) }) := by
  simp only [attributor] at accepted
  cases tracked : session.tracker? with
  | none =>
    rw [tracked] at accepted
    cases accepted
  | some tracker =>
    rw [tracked] at accepted
    obtain ⟨lines, claimed⟩ := Tracker.exists_claim accepted
    exact ⟨tracker, lines, rfl, claimed⟩

/-! Children that came of a block. -/

theorem mem_of_mem_produced (member : node ∈ produced before children) : node ∈ children := by
  unfold produced at member
  split at member
  · split at member
    · exact List.mem_of_getLast? (Option.mem_toList.1 member)
    · cases member
  · exact (List.mem_filter.1 member).1

theorem produced_eq_of_mem (member : node ∈ produced before children) (older : node ∈ before) :
    produced before children = [node] := by
  unfold produced at member ⊢
  split at member
  · split at member
    · have atEnd := Option.mem_toList.1 member
      next moved => rw [if_pos moved, atEnd, Option.toList_some]
    · cases member
  · simp [older] at member

theorem produced_self (children : List NodeId) : produced children children = [] := by
  unfold produced
  rw [List.filter_eq_nil_iff.2 fun _ member => by simpa using member]
  exact if_neg fun different => different rfl

/-! Conclusions. -/

inductive Concluded (settings : Settings) (before : List NodeId) (parent : NodeId) (lines : Interval)
    (parsed : Session) : Session → Prop
  | untracked : parsed.tracker? = none → Concluded settings before parent lines parsed parsed
  | lost {tracker : Tracker} {failure : Failure} : parsed.tracker? = some tracker →
    Tracker.annotate { tracker with guard := .idle } lines = .error failure →
    Concluded settings before parent lines parsed
      (parsed.setTracker { tracker with guard := .idle })
  | placed {tracker annotated : Tracker} {origin : Origin} {emitted : Option NodeId} {tree : Tree} :
    parsed.tracker? = some tracker →
    Tracker.annotate { tracker with guard := .idle } lines = .ok (origin, annotated) →
    Wrote (settings.stamper tracker) parsed.tree parent tracker.lastEmitted origin
      (produced before (parsed.tree.childrenOf parent)) emitted tree →
    Concluded settings before parent lines parsed ((parsed.setTree tree).setTracker
      { annotated with lastEmitted := emitted.or tracker.lastEmitted })

theorem exists_concluded {claimed : Tracker} (settings : Settings)
    (claim : session.tracker?.bind (·.claim block) = some (lines, claimed))
    (valid : parent < session.tree.size) (closed : parsed.tree.Closed)
    (size_le : session.tree.size ≤ parsed.tree.size) :
    ∃ after, Concluded settings (session.tree.childrenOf parent) parent lines parsed after ∧
      ∀ rest, (attributor settings).run (fun _ _ _ => .ok parsed) session parent block rest =
        .ok (.handled after rest) := by
  have valid' := Nat.lt_of_lt_of_le valid size_le
  simp only [attributor, claim, Session.setTracker, Tree.children_eq_ok valid, bind, Except.bind]
  cases tracked : parsed.tracker? with
  | none => exact ⟨_, .untracked tracked, fun _ => rfl⟩
  | some tracker =>
    simp only [Tree.children_eq_ok valid']
    cases annotate : Tracker.annotate { tracker with guard := tracker.guard.exit } lines with
    | error failure => exact ⟨_, .lost tracked annotate, fun _ => rfl⟩
    | ok found =>
      obtain ⟨origin, annotated⟩ := found
      obtain ⟨used, rfl⟩ := exists_used annotate
      have held : ∀ node ∈ produced (session.tree.childrenOf parent) (parsed.tree.childrenOf parent),
          node < parsed.tree.size :=
        fun node member => closed.lt_size (mem_of_mem_produced member)
      have names := settings.names_stamper tracker
      obtain ⟨emitted, tree, written, wrote⟩ :=
        exists_wrote names origin tracker.lastEmitted closed valid' held
      rw [Settings.stamper] at written
      simp only [written]
      exact ⟨_, .placed tracked annotate wrote, fun _ => rfl⟩

namespace Concluded

variable (concluded : Concluded settings before parent lines parsed after)

include concluded

theorem size_eq : after.tree.size = parsed.tree.size := by
  cases concluded with
  | untracked _ | lost _ _ => rfl
  | placed _ _ wrote => exact wrote.size_eq

theorem closed (closed : parsed.tree.Closed) : after.tree.Closed := by
  cases concluded with
  | untracked _ | lost _ _ => exact closed
  | placed _ _ wrote => exact wrote.closed closed

end Concluded

end Tracemark.Offsets
