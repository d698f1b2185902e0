import Tracemark.Proofs.Dispatch.Turns
import Tracemark.Proofs.Grammar.Reference
import Tracemark.Proofs.Offsets.Annotation
import Tracemark.Proofs.Offsets.Claiming
import Tracemark.Proofs.Offsets.Writing

/-! Blocks that go through the offsets layer.

The layer claims the run of a block and has the block parsed by the grammar alone: while it does so,
it accepts nothing itself. The tree that comes of it is therefore the one that the grammar makes of
this one block. The origin of the run, if it has one, is then written onto that tree. Blank blocks are
left to the grammar, which drops them.
-/

set_option autoImplicit false

namespace Tracemark.Offsets

open Tracemark.Dispatch (offer run turns weight weight_cons weight_nil)
open Tracemark.Grammar (members members_lawful)
open Tracemark.Tree (Extends Grows)

def Settings.stamper (settings : Settings) (tracker : Tracker) : Stamper where
  names := .ofLead settings.attributeLead
  document := if settings.debug then some tracker.index.document else none

theorem Settings.names_stamper (settings : Settings) (tracker : Tracker) :
    (settings.stamper tracker).names = .ofLead settings.attributeLead :=
  rfl

def Tracker.claimed (tracker : Tracker) (lines : Interval) : Tracker :=
  { tracker with lastClaimed := some (lines.stop - 1), guard := .idle }

def Tracker.busy (tracker : Tracker) (lines : Interval) : Tracker :=
  { tracker with lastClaimed := some (lines.stop - 1), guard := .prerendering }

def Parsed (session : Session) (block : Text) (grown : Tree) : Prop :=
  run members (weight [block] + 1) session Tree.root [block] = .ok (session.setTree grown)

/-- What the layer makes of claimed lines, once their block is parsed into the tree `grown`. -/
inductive Handed (settings : Settings) (before : Session) (tracker : Tracker) (lines : Interval)
    (grown : Tree) : Session → Prop
  | lost {failure : Failure} :
    (tracker.claimed lines).annotate lines = .error failure →
    Handed settings before tracker lines grown
      ((before.setTree grown).setTracker (tracker.claimed lines))
  | placed {annotated : Tracker} {origin : Origin} {fresh : List NodeId} :
    (tracker.claimed lines).annotate lines = .ok (origin, annotated) →
    grown.childrenOf Tree.root = before.tree.childrenOf Tree.root ++ fresh →
    Handed settings before tracker lines grown
      ((before.setTree ((settings.stamper tracker).written grown Tree.root origin fresh)).setTracker
        { annotated with lastEmitted := fresh.getLast?.or tracker.lastEmitted })

/-- What the layer makes of the block that starts on line `line`. -/
inductive Turned (settings : Settings) (line : Nat) (block : Text) (before : Session) :
    Session → Prop
  | blank : block.isBlank = true → Turned settings line block before before
  | lost {tracker : Tracker} {lines : Interval} {grown : Tree} {failure : Failure} :
    before.tracker? = some tracker → contentRun? line block.lines = some lines →
    Parsed before block grown → (tracker.claimed lines).annotate lines = .error failure →
    Turned settings line block before
      ((before.setTree grown).setTracker (tracker.claimed lines))
  | placed {tracker annotated : Tracker} {lines : Interval} {grown : Tree} {origin : Origin}
      {fresh : List NodeId} :
    before.tracker? = some tracker → contentRun? line block.lines = some lines →
    Parsed before block grown → (tracker.claimed lines).annotate lines = .ok (origin, annotated) →
    grown.childrenOf Tree.root = before.tree.childrenOf Tree.root ++ fresh →
    Turned settings line block before
      ((before.setTree ((settings.stamper tracker).written grown Tree.root origin fresh)).setTracker
        { annotated with lastEmitted := fresh.getLast?.or tracker.lastEmitted })

/-- A session in which blocks are still to be offered, the first of which starts on line `line`. -/
structure Facing (line : Nat) (blocks : List Text) (tracker : Tracker) (session : Session) : Prop where
  tracked : session.tracker? = some tracker
  unclaimed : tracker.unclaimed = numberedBlocks line blocks
  idle : tracker.guard = .idle
  ordered : session.tree.Ordered
  emitted : ∀ node ∈ tracker.lastEmitted, node < session.tree.size

variable {settings : Settings} {line : Nat} {block : Text} {blocks rest : List Text}
  {tracker : Tracker} {session before after : Session} {grown : Tree}

theorem Parsed.grows (parsed : Parsed session block grown) (ordered : session.tree.Ordered) :
    Grows Tree.root session.tree grown := by
  obtain ⟨tree, ran, grows⟩ := Dispatch.run_grows session members_lawful ordered
    ordered.root_lt_size (Nat.lt_succ_self (weight [block]))
  have same : session.setTree tree = session.setTree grown := Except.ok.inj (ran.symm.trans parsed)
  have same' : tree = grown := congrArg Session.tree same
  exact same' ▸ grows

theorem Parsed.exists_fresh (parsed : Parsed session block grown) (ordered : session.tree.Ordered) :
    ∃ fresh, grown.childrenOf Tree.root = session.tree.childrenOf Tree.root ++ fresh := by
  obtain ⟨fresh, same, -⟩ := (parsed.grows ordered).children ordered.root_lt_size
  exact ⟨fresh, same⟩

theorem bounds_of_fresh {tree : Tree} (grows : Grows Tree.root tree grown) (ordered : tree.Ordered)
    {fresh : List NodeId} (children : grown.childrenOf Tree.root = tree.childrenOf Tree.root ++ fresh) :
    ∀ node ∈ fresh, tree.size ≤ node ∧ node < grown.size := by
  obtain ⟨fresh', same, new, -⟩ := grows.children ordered.root_lt_size
  cases List.append_cancel_left (children.symm.trans same)
  intro node member
  have child : node ∈ grown.childrenOf Tree.root := by
    rw [children]
    exact List.mem_append_right _ member
  exact ⟨new node member, grows.ordered.child_lt_size child⟩

theorem Parsed.bounds_of_fresh (parsed : Parsed session block grown)
    (ordered : session.tree.Ordered) {fresh : List NodeId}
    (children : grown.childrenOf Tree.root = session.tree.childrenOf Tree.root ++ fresh) :
    ∀ node ∈ fresh, session.tree.size ≤ node ∧ node < grown.size :=
  Offsets.bounds_of_fresh (parsed.grows ordered) ordered children

theorem exists_used {lines : Interval} {origin : Origin} {annotated : Tracker}
    (found : tracker.annotate lines = .ok (origin, annotated)) :
    ∃ used, annotated = { tracker with used } := by
  obtain ⟨_, _, lines, _, -, -, -, -, -, rfl⟩ := annotate_eq_ok found
  exact ⟨_, rfl⟩

/-- While a block is handed on, the layer accepts nothing. -/
theorem attributor_quiet (tracked : session.tracker? = some tracker)
    (busy : tracker.guard = .prerendering) (tree : Tree) (parent : NodeId) (text : Text) :
    (attributor settings).accepts (session.setTree tree) parent text = false := by
  simp only [attributor, Session.tracker?_setTree, tracked, Option.map_some, Option.getD_some,
    Tracker.wants, busy, Guard.isPrerendering, Bool.not_true, Bool.false_and]

theorem attributor_rejects_blank {parent : NodeId} (blank : block.isBlank = true) :
    (attributor settings).accepts session parent block = false := by
  simp only [attributor]
  cases session.tracker? with
  | none => rfl
  | some tracker => exact Tracker.wants_of_blank blank

theorem exists_parsed (settings : Settings) (ordered : session.tree.Ordered) (busy : Tracker)
    (guarded : busy.guard = .prerendering) {budget : Nat} (enough : weight [block] < budget) :
    ∃ grown, Parsed session block grown ∧
      run (attributor settings :: members) budget (session.setTracker busy) Tree.root [block] =
        .ok ((session.setTracker busy).setTree grown) := by
  -- The layer stands in front of the handlers on the left only, where it accepts nothing.
  let pairing : Pairing :=
    { left := session.setTracker busy, right := session, shift := 0, hidden := [], stash := rfl,
      shown := List.not_mem_nil }
  have quiet : ∀ guard ∈ [attributor settings], ∀ tree parent text,
      guard.accepts (pairing.left.setTree tree) parent text = false := by
    intro guard member tree parent text
    rw [List.mem_singleton.1 member]
    exact attributor_quiet (Session.tracker?_setTracker session busy) guarded tree parent text
  have follows : pairing.Follows Tree.root (weight [block] + 1)
      (run ([attributor settings] ++ members) budget) (run members (weight [block] + 1)) :=
    Dispatch.run_follows pairing Tree.root [attributor settings] members_lawful quiet
      (Nat.succ_le_of_lt enough) (Nat.le_refl _)
  have start : pairing.Paired session.tree session.tree := ⟨ordered, .refl _⟩
  obtain ⟨grown, grown', paired, -, ran, ran'⟩ :=
    follows start (Nat.le_refl _) ordered.root_lt_size (Nat.lt_succ_self (weight [block]))
  have same : grown' = grown := paired.matched.eq
  exact ⟨grown, same ▸ ran', ran⟩

theorem setTracker_setTracker (session : Session) (first second : Tracker) :
    (session.setTracker first).setTracker second = session.setTracker second := by
  simp [Session.setTracker, Extensions.set, Extensions.insert, Extensions.remove]

theorem setTracker_setTree (session : Session) (tree : Tree) (tracker : Tracker) :
    (session.setTracker tracker).setTree tree = (session.setTree tree).setTracker tracker :=
  rfl

def conclude (settings : Settings) (session : Session) (tracker : Tracker) (lines : Interval)
    (fresh : List NodeId) (rest : List Text) : Except Fault Outcome :=
  match tracker.annotate lines with
  | .error _ => return .handled (session.setTracker tracker) rest
  | .ok (origin, annotated) => do
    let (emitted, tree) ← writeOrigin (settings.stamper annotated) session.tree Tree.root
      annotated.lastEmitted origin fresh
    return .handled ((session.setTree tree).setTracker
      { annotated with lastEmitted := emitted.or annotated.lastEmitted }) rest

theorem exists_contentRun? (line : Nat) (content : block.isBlank = false) :
    ∃ lines, contentRun? line block.lines = some lines := by
  rw [← Option.ne_none_iff_exists']
  intro none
  rw [contentRun?_eq_none_iff, content] at none
  cases none

/-- The layer takes lines of a block that it has parsed by whatever stands behind it, and the next
block can be offered. -/
theorem attributor_hands (settings : Settings) (facing : Facing line (block :: blocks) tracker session)
    {lines : Interval} (found : contentRun? line block.lines = some lines)
    (grows : Grows Tree.root session.tree grown) {reparse : Reparse}
    (ran : reparse (session.setTracker (tracker.busy lines)) Tree.root [block] =
      .ok ((session.setTracker (tracker.busy lines)).setTree grown)) :
    ∃ after tracker', Handed settings session tracker lines grown after ∧
      Facing (line + block.lines.length + 1) blocks tracker' after ∧
      ∀ rest, (attributor settings).run reparse session Tree.root block rest =
        .ok (.handled after rest) := by
  obtain ⟨tracked, unclaimed, idle, ordered, emitted⟩ := facing
  obtain ⟨fresh, children, -⟩ := grows.children ordered.root_lt_size
  have new := bounds_of_fresh grows ordered children
  have behind : (tracker.claimed lines).unclaimed =
      numberedBlocks (line + block.lines.length + 1) blocks :=
    Tracker.unclaimed_of_claim unclaimed found
  have claim : tracker.claim block =
      some (lines, { tracker with lastClaimed := some (lines.stop - 1) }) := by
    rw [Tracker.claim_eq unclaimed, found]
    rfl
  have held : Tree.root < grown.size := grows.lt_size ordered.root_lt_size
  have made : produced (session.tree.childrenOf Tree.root) (grown.childrenOf Tree.root) = fresh := by
    rw [children]
    apply produced_append
    intro node member old
    exact Nat.not_le_of_lt (ordered.child_lt_size old) (new node member).1
  -- Everything up to the origin is the same whether or not there is one.
  have start (rest : List Text) : (attributor settings).run reparse session Tree.root block rest =
      conclude settings (session.setTree grown) (tracker.claimed lines) lines fresh rest := by
    simp only [attributor, tracked, Option.bind_some, claim]
    change (session.tree.children Tree.root).bind _ = _
    rw [Tree.children_eq_ok ordered.root_lt_size]
    change (reparse (session.setTracker (tracker.busy lines)) Tree.root [block]).bind _ = _
    rw [ran]
    change Except.bind (grown.children Tree.root) _ = _
    rw [Tree.children_eq_ok held]
    have exited : { tracker.busy lines with guard := (tracker.busy lines).guard.exit } =
        tracker.claimed lines := rfl
    simp only [Except.bind, made, exited, setTracker_setTree, setTracker_setTracker]
    rfl
  cases annotated : (tracker.claimed lines).annotate lines with
  | error failure =>
    refine ⟨_, tracker.claimed lines, .lost annotated, ?_, fun rest => ?_⟩
    · exact ⟨Session.tracker?_setTracker _ _, behind, rfl,
        grows.ordered, fun node member => grows.lt_size (emitted node member)⟩
    · rw [start, conclude, annotated]
      rfl
  | ok result =>
    obtain ⟨origin, marked⟩ := result
    obtain ⟨used, rfl⟩ := exists_used annotated
    let stamper := settings.stamper tracker
    have within : ∀ node ∈ fresh, node < grown.size := fun node member => (new node member).2
    have unstamped : ∀ node ∈ fresh, some node ≠ tracker.lastEmitted := by
      intro node member same
      exact Nat.not_le_of_lt (emitted node same.symm) (new node member).1
    have wrote : writeOrigin stamper grown Tree.root tracker.lastEmitted origin fresh =
        .ok (fresh.getLast?, stamper.written grown Tree.root origin fresh) :=
      Stamper.writeOrigin_eq_ok rfl grows.ordered held within unstamped
    refine ⟨_, { tracker.claimed lines with
      used, lastEmitted := fresh.getLast?.or tracker.lastEmitted },
      .placed annotated children, ?_, fun rest => ?_⟩
    · have extended : Extends Tree.root session.tree (stamper.written grown Tree.root origin fresh) :=
        Stamper.extends_written grows.toExtends
      refine ⟨Session.tracker?_setTracker _ _, behind, rfl,
        extended.ordered, ?_⟩
      intro node member
      change node < (stamper.written grown Tree.root origin fresh).size
      rw [Stamper.size_written]
      cases atEnd : fresh.getLast? with
      | none =>
        simp only [atEnd, Option.none_or] at member
        exact grows.lt_size (emitted node member)
      | some last =>
        simp only [atEnd, Option.some_or, Option.mem_def, Option.some.injEq] at member
        exact member ▸ within last (List.mem_of_getLast? atEnd)
    · rw [start, conclude, annotated]
      change Except.bind (writeOrigin stamper grown Tree.root tracker.lastEmitted origin fresh) _ = _
      rw [wrote]
      rfl

theorem attributor_run (facing : Facing line (block :: blocks) tracker session)
    (content : block.isBlank = false) {budget : Nat} (enough : weight [block] < budget) :
    ∃ after tracker', Turned settings line block session after ∧
      Facing (line + block.lines.length + 1) blocks tracker' after ∧
      ∀ rest, (attributor settings).run (run (attributor settings :: members) budget) session
        Tree.root block rest = .ok (.handled after rest) := by
  obtain ⟨lines, found⟩ := exists_contentRun? line content
  obtain ⟨grown, parsed, ran⟩ := exists_parsed settings facing.ordered (tracker.busy lines) rfl enough
  obtain ⟨after, tracker', handed, facing', took⟩ :=
    attributor_hands settings facing found (parsed.grows facing.ordered) ran
  refine ⟨after, tracker', ?_, facing', took⟩
  cases handed with
  | lost failed => exact .lost facing.tracked found parsed failed
  | placed annotated children => exact .placed facing.tracked found parsed annotated children

theorem attributor_accepts (facing : Facing line (block :: blocks) tracker session)
    (parent : NodeId) :
    (attributor settings).accepts session parent block = !block.isBlank := by
  simp only [attributor, facing.tracked, Option.map_some, Option.getD_some,
    Tracker.wants_eq facing.unclaimed, facing.idle, Guard.isPrerendering, Bool.not_false,
    Bool.true_and]

/-- Offering a block leaves the queue behind it as it was. -/
theorem offer_turn (settings : Settings) (facing : Facing line (block :: blocks) tracker session)
    {budget : Nat} (enough : weight [block] < budget) :
    ∃ after tracker', Turned settings line block session after ∧
      Facing (line + block.lines.length + 1) blocks tracker' after ∧
      ∀ rest, offer (run (attributor settings :: members) budget) Tree.root block rest
        (attributor settings :: members) session = .ok (after, rest) := by
  cases blank : block.isBlank with
  | false =>
    obtain ⟨after, tracker', turned, facing', ran⟩ := attributor_run facing blank enough
    refine ⟨after, tracker', turned, facing', fun rest => ?_⟩
    rw [offer, attributor_accepts facing, blank]
    change ((attributor settings).run _ session Tree.root block rest).bind _ = _
    rw [ran]
    rfl
  | true =>
    refine ⟨session, tracker, .blank blank, ?_, fun rest => ?_⟩
    · exact ⟨facing.tracked, Tracker.unclaimed_of_blank facing.unclaimed blank, facing.idle,
        facing.ordered, facing.emitted⟩
    · have nothing : Grammar.putBack block.dropLeadingFeeds rest = rest :=
        if_pos (Grammar.dropLeadingFeeds_isBlank blank)
      have accepted : Grammar.empty.accepts session Tree.root block = true := by
        simp [Grammar.empty, blank]
      rw [offer, attributor_accepts facing, blank, members, offer, accepted]
      change Except.ok (session, Grammar.putBack block.dropLeadingFeeds rest) = _
      rw [nothing]

inductive Followed (settings : Settings) : Nat → List Text → Session → List Turn → Session → Prop
  | done {line : Nat} {session : Session} : Followed settings line [] session [] session
  | turn {line : Nat} {block : Text} {rest : List Text} {before middle after : Session}
      {turns : List Turn} :
    Turned settings line block before middle →
    Followed settings (line + block.lines.length + 1) rest middle turns after →
    Followed settings line (block :: rest) before (⟨block, before, middle⟩ :: turns) after

theorem Followed.lastSession_eq {turns : List Turn}
    (followed : Followed settings line blocks before turns after) :
    Dispatch.lastSession before turns = after := by
  induction followed with
  | done => rfl
  | turn _ _ ih => rw [Dispatch.lastSession_cons, ih]

theorem turns_followed (settings : Settings) (facing : Facing line blocks tracker session)
    {budget : Nat} (enough : weight blocks + 2 ≤ budget) :
    ∃ list after, turns (attributor settings :: members) budget session Tree.root blocks = .ok list ∧
      Followed settings line blocks session list after := by
  induction blocks generalizing line tracker session budget with
  | nil =>
    obtain ⟨budget, rfl⟩ := Nat.exists_eq_add_of_le' enough
    exact ⟨[], session, rfl, .done⟩
  | cons block rest ih =>
    obtain ⟨budget, rfl⟩ := Nat.exists_eq_add_of_le' (Nat.le_trans (Nat.le_add_left 1 _) enough)
    rw [weight_cons] at enough
    have single : weight [block] < budget := by
      rw [weight_cons, weight_nil]
      omega
    obtain ⟨middle, tracker', turned, facing', offered⟩ := offer_turn settings facing single
    obtain ⟨list, after, ran, followed⟩ := ih facing' (show weight rest + 2 ≤ budget by omega)
    refine ⟨⟨block, session, middle⟩ :: list, after, ?_, .turn turned followed⟩
    rw [turns, offered]
    change Except.bind (turns (attributor settings :: members) budget middle Tree.root rest) _ = _
    rw [ran]
    rfl

end Tracemark.Offsets
