import Tracemark.Proofs.Offsets.Crew
import Tracemark.Proofs.Offsets.Notes
import Tracemark.Proofs.Offsets.Offers
import Tracemark.Proofs.Offsets.Traced

/-! Text that comes back to the layer.

While a block is handed on, text is parsed again at any depth: the bodies of items and quotes, what
stands around a cut, and the very text of the block where a wrapper stands behind the layer. All of it
is offered to the layer again. The layer still claims each block with content exactly once, and nothing
of what is parsed in between.
-/

set_option autoImplicit false

namespace Tracemark

namespace Call

def claims (call : Call) : Bool :=
  call.handler = "offsets" && (call.session.tracker?.bind (·.claim call.block)).isSome

structure Sound (call : Call) : Prop where
  around : call.around = []
  parent : call.parent = Tree.root
  tracked : ∃ tracker, call.session.tracker? = some tracker ∧ tracker.guard = .idle ∧
    (tracker.claim call.block).isSome = true

theorem claims_of_ne {call : Call} (other : call.handler ≠ "offsets") : call.claims = false := by
  simp [claims, other]

theorem claims_of_handed {call : Call} (sound : call.handler = "offsets" → call.Sound)
    (handed : "offsets" ∈ call.around) : call.claims = false := by
  apply claims_of_ne
  intro layer
  rw [(sound layer).around] at handed
  cases handed

theorem Sound.claims_eq {call : Call} (sound : call.Sound) (layer : call.handler = "offsets") :
    call.claims = true := by
  obtain ⟨tracker, tracked, -, claim⟩ := sound.tracked
  simp [claims, layer, tracked, claim]

end Call

namespace Offsets

open Tracemark.Dispatch (calls weight weight_cons weight_nil)
open Tracemark.Tree (Grows)

variable {settings : Settings} {crew : Crew} {session before after : Session} {tracker : Tracker}
  {block : Text} {blocks lines : List Text} {line : Nat} {log : List Call}

/-- The calls on blocks of the root, the first of which starts on line `line`. -/
inductive Attended (settings : Settings) :
    Nat → List Text → Session → List Call → Session → Prop
  | done {line : Nat} {session : Session} : Attended settings line [] session [] session
  | blank {line : Nat} {block : Text} {rest : List Text} {before after : Session} {grown : Tree}
      {first later : List Call} :
    block.isBlank = true → (∀ call ∈ first, call.handler ≠ "offsets") →
    Grows Tree.root before.tree grown →
    Attended settings (line + block.lines.length + 1) rest (before.setTree grown) later after →
    Attended settings line (block :: rest) before (first ++ later) after
  | content {line : Nat} {block : Text} {rest : List Text} {before middle after : Session}
      {tracker : Tracker} {lines : Interval} {grown : Tree} {inner later : List Call} :
    Facing line (block :: rest) tracker before → contentRun? line block.lines = some lines →
    Grows Tree.root before.tree grown → Handed settings before tracker lines grown middle →
    (∀ call ∈ inner, call.handler ≠ "offsets") →
    Attended settings (line + block.lines.length + 1) rest middle later after →
    Attended settings line (block :: rest) before
      (⟨"offsets", [], before, Tree.root, block⟩ :: (inner ++ later)) after

theorem Facing.blank (facing : Facing line (block :: blocks) tracker session)
    (blank : block.isBlank = true) {grown : Tree} (grows : Grows Tree.root session.tree grown) :
    Facing (line + block.lines.length + 1) blocks tracker (session.setTree grown) where
  tracked := facing.tracked
  unclaimed := Tracker.unclaimed_of_blank facing.unclaimed blank
  idle := facing.idle
  ordered := grows.ordered
  emitted node member := grows.lt_size (facing.emitted node member)

theorem calls_attended (settings : Settings) (crew : Crew) (facing : Facing line blocks tracker session)
    {budget : Nat} (enough : weight blocks + 3 ≤ budget) :
    ∃ log after, calls (crew.actors settings) budget [] session Tree.root blocks = .ok (log, after) ∧
      Attended settings line blocks session log after ∧
      ∃ line' tracker', Facing line' [] tracker' after := by
  induction blocks generalizing line tracker session budget with
  | nil =>
    obtain ⟨budget, rfl⟩ := Nat.exists_eq_add_of_le' enough
    exact ⟨[], session, rfl, .done, line, tracker, facing⟩
  | cons block rest ih =>
    obtain ⟨budget, rfl⟩ := Nat.exists_eq_add_of_le' (Nat.le_trans (Nat.le_add_left 1 _) enough)
    rw [weight_cons] at enough
    have single : weight [block] + 1 < budget := by
      rw [weight_cons, weight_nil]
      omega
    have others : weight rest + 3 ≤ budget := by omega
    cases blank : block.isBlank with
    | true =>
      obtain ⟨first, grown, quiet, grows, offered⟩ := exists_offerCalls_blank settings crew
        blank facing.ordered (Nat.lt_of_succ_lt single)
      obtain ⟨later, after, ran, attended, behind⟩ := ih (facing.blank blank grows) others
      refine ⟨first ++ later, after, ?_, .blank blank quiet grows attended, behind⟩
      rw [calls, offered]
      change (calls (crew.actors settings) budget [] _ Tree.root rest).bind _ = _
      rw [ran]
      rfl
    | false =>
      obtain ⟨lines, grown, middle, tracker', inner, found, grows, handed, facing', quiet, offered⟩ :=
        exists_offerCalls_content settings crew facing blank single
      obtain ⟨later, after, ran, attended, behind⟩ := ih facing' others
      refine ⟨_, after, ?_, .content facing found grows handed quiet attended, behind⟩
      rw [calls, offered]
      change (calls (crew.actors settings) budget [] middle Tree.root rest).bind _ = _
      rw [ran]
      rfl

/-! Calls of the layer. -/

theorem sound_of_facing (facing : Facing line (block :: blocks) tracker session) {run : Interval}
    (found : contentRun? line block.lines = some run) :
    Call.Sound ⟨"offsets", [], session, Tree.root, block⟩ where
  around := rfl
  parent := rfl
  tracked := by
    refine ⟨tracker, facing.tracked, facing.idle, ?_⟩
    rw [Tracker.claim_eq facing.unclaimed, found]
    rfl

theorem filter_claims_eq_nil (others : ∀ call ∈ log, call.handler ≠ "offsets") :
    log.filter Call.claims = [] := by
  rw [List.filter_eq_nil_iff]
  intro call member
  rw [Call.claims_of_ne (others call member)]
  exact Bool.false_ne_true

theorem Attended.sound (attended : Attended settings line blocks before log after) :
    ∀ call ∈ log, call.handler = "offsets" → call.Sound := by
  induction attended with
  | done => simp
  | blank _ quiet _ _ ih =>
    rw [List.forall_mem_append]
    exact ⟨fun call member layer => absurd layer (quiet call member), ih⟩
  | content facing found _ _ quiet _ ih =>
    rw [List.forall_mem_cons, List.forall_mem_append]
    exact ⟨fun _ => sound_of_facing facing found,
      fun call member layer => absurd layer (quiet call member), ih⟩

/-- Each block with content is claimed once, in the order of the blocks. -/
theorem Attended.claimed_eq (attended : Attended settings line blocks before log after) :
    (log.filter Call.claims).map (·.block) = blocks.filter (!·.isBlank) := by
  induction attended with
  | done => rfl
  | blank blank quiet _ _ ih =>
    rw [List.filter_append, filter_claims_eq_nil quiet, List.nil_append, ih,
      List.filter_cons_of_neg (by simp [blank])]
  | @content line block _ _ _ _ _ _ _ _ _ facing found _ _ quiet _ ih =>
    have claims := (sound_of_facing facing found).claims_eq rfl
    have content : contentRun? line block.lines ≠ none := by simp [found]
    rw [ne_eq, contentRun?_eq_none_iff, Bool.not_eq_true] at content
    rw [List.filter_cons_of_pos claims, List.filter_append, filter_claims_eq_nil quiet,
      List.nil_append, List.map_cons, ih, List.filter_cons_of_pos (by simp [content])]

/-! The last claim. -/

theorem Handed.lastClaimed_eq {middle : Session} {run : Interval} {grown : Tree}
    (handed : Handed settings before tracker run grown middle) :
    ∃ tracker', middle.tracker? = some tracker' ∧ tracker'.lastClaimed = some (run.stop - 1) := by
  cases handed with
  | lost failed => exact ⟨_, Session.tracker?_setTracker _ _, rfl⟩
  | placed annotated children =>
    obtain ⟨used, rfl⟩ := exists_used annotated
    exact ⟨_, Session.tracker?_setTracker _ _, rfl⟩

theorem Attended.lastClaimed_eq (attended : Attended settings line blocks before log after)
    {tracker' : Tracker} (tracked : before.tracker? = some tracker)
    (tracked' : after.tracker? = some tracker') : tracker'.lastClaimed =
      ((numberedBlocks line blocks).getLast?.map (·.1)).or tracker.lastClaimed := by
  induction attended generalizing tracker with
  | done =>
    rw [tracked] at tracked'
    cases tracked'
    rfl
  | blank blank _ _ _ ih =>
    rw [Text.isBlank_iff_forall_lines] at blank
    rw [ih tracked tracked', numberedBlocks, (numbered_eq_nil_iff _).2 blank, List.nil_append]
  | content facing found _ handed _ _ ih =>
    obtain ⟨middle, tracked, last⟩ := handed.lastClaimed_eq
    obtain ⟨first, final, -, atEnd, rfl⟩ := exists_ends_of_contentRun? found
    rw [ih tracked tracked', last, numberedBlocks, List.getLast?_append, atEnd]
    cases (numberedBlocks _ _).getLast? <;> rfl

theorem getLast?_numbered_eq_some_iff {lines : List Text} :
    (numbered 0 lines).getLast?.map (·.1) = some line ↔
      HasContent lines line ∧ ∀ later, line < later → ¬HasContent lines later := by
  have content (other : Nat) : HasContent lines other ↔ ∃ text, (other, text) ∈ numbered 0 lines := by
    simp [HasContent, mem_numbered]
  simp only [content]
  constructor
  · intro same
    obtain ⟨last, atEnd, rfl⟩ := Option.map_eq_some_iff.1 same
    refine ⟨⟨last.2, List.mem_of_getLast? atEnd⟩, ?_⟩
    rintro later behind ⟨text, member⟩
    exact Nat.not_lt_of_le (le_of_getLast? (pairwise_numbered _ _) atEnd member) behind
  · rintro ⟨⟨text, member⟩, highest⟩
    obtain ⟨last, atEnd⟩ : ∃ last, (numbered 0 lines).getLast? = some last :=
      ⟨_, List.getLast?_eq_some_getLast (List.ne_nil_of_mem member)⟩
    have most := le_of_getLast? (pairwise_numbered _ _) atEnd member
    have least : ¬line < last.1 := fun behind =>
      highest last.1 behind ⟨last.2, List.mem_of_getLast? atEnd⟩
    rw [atEnd, Option.map_some, Nat.le_antisymm (Nat.le_of_not_lt least) most]

/-! Where offsets are written. -/

structure Topmost (lead : String) (tree : Tree) : Prop where
  ordered : tree.Ordered
  bare : ∀ node element, tree.get? node = some element → node ∉ tree.childrenOf Tree.root →
    ∀ name ∈ (AttributeNames.ofLead lead).toList, element.attributes.get? name = none

namespace Topmost

variable {lead : String} {tree after : Tree}

theorem empty (lead : String) : Topmost lead Tree.empty where
  ordered := Tree.ordered_empty
  bare := by
    intro node element found _ name _
    cases node with
    | zero =>
      cases found
      rfl
    | succ id => cases found

theorem grown (topmost : Topmost lead tree) (grows : Grows Tree.root tree after) :
    Topmost lead after where
  ordered := grows.ordered
  bare := by
    intro node element found outside name member
    rcases Nat.lt_or_ge node tree.size with old | new
    · obtain ⟨held, there⟩ := Tree.exists_get? old
      obtain ⟨fresh, same, -⟩ := grows.children topmost.ordered.root_lt_size
      rw [same, List.mem_append, not_or] at outside
      rw [grows.attributes there found]
      exact topmost.bare node held there outside.1 name member
    · exact bare_of_new grows new found name member

theorem written (topmost : Topmost lead tree) {stamper : Stamper} {origin : Origin}
    {fresh : List NodeId} (children : fresh ⊆ tree.childrenOf Tree.root) :
    Topmost lead (stamper.written tree Tree.root origin fresh) where
  ordered := by
    have extended : Tree.Extends Tree.root tree (stamper.written tree Tree.root origin fresh) :=
      Stamper.extends_written (.refl topmost.ordered)
    exact extended.ordered
  bare := by
    intro node element found outside
    rw [Stamper.childrenOf_written] at outside
    rw [Stamper.get?_written_of_not_mem children outside] at found
    exact topmost.bare node element found outside

end Topmost

theorem Attended.topmost {lead : String} (attended : Attended settings line blocks before log after)
    (topmost : Topmost lead before.tree) : Topmost lead after.tree := by
  induction attended with
  | done => exact topmost
  | blank _ _ grows _ ih => exact ih (topmost.grown grows)
  | content _ _ grows handed _ _ ih =>
    apply ih
    cases handed with
    | lost failed => exact topmost.grown grows
    | placed annotated children =>
      apply (topmost.grown grows).written
      rw [children]
      exact List.subset_append_right _ _

/-! Documents. -/

structure Manned (differ : Alignment.Differ) (settings : Settings) (between : List Stage) (crew : Crew)
    (compiler : Compiler) : Prop extends Staged differ settings between compiler where
  handlers : compiler.handlers.items = (crew.actors settings).map (·.handler)

variable {differ : Alignment.Differ} {between : List Stage} {compiler : Compiler}

theorem Manned.two_le_size (manned : Manned differ settings between crew compiler) :
    2 ≤ compiler.handlers.size := by
  have length := congrArg List.length manned.handlers
  rw [Registry.items, List.length_map, List.length_map] at length
  rw [Registry.size, length]
  rcases crew.behind_cases with ⟨others, behind⟩ | ⟨wrapper, -, behind⟩ <;>
    simp [Crew.actors, behind]

theorem Manned.attended (manned : Manned differ settings between crew compiler) (source : Text)
    (unbroken : Unbroken (preparedLines between source)) :
    ∃ log session, compiler.calls (crew.actors settings) source = .ok (log, session) ∧
      compiler.render source = .ok session ∧
      Attended settings 0 (preparedBlocks between source)
        (startSession differ settings between source) log session ∧
      ∃ line tracker, Facing line [] tracker session := by
  have size := manned.two_le_size
  obtain ⟨log, session, ran, attended, behind⟩ :=
    calls_attended settings crew (manned.facing source unbroken)
      (show weight (preparedBlocks between source) + 3 ≤
        weight (preparedBlocks between source) + compiler.handlers.size + 1 by omega)
  have told : compiler.calls (crew.actors settings) source = .ok (log, session) := by
    rw [Compiler.calls, manned.runAll_eq]
    exact ran
  refine ⟨log, session, told, ?_, attended, behind⟩
  rw [← Compiler.map_calls manned.handlers, told]
  rfl

/-- Each block with content is claimed once and in order, by a call on the root while nothing is handed
on, and nothing is claimed while a block is handed on. The layer ends idle and on the last line with
content, and has written onto children of the root only. -/
theorem render_claims_once (manned : Manned differ settings between crew compiler) (source : Text)
    (unbroken : Unbroken (preparedLines between source)) :
    ∃ log session tracker, compiler.calls (crew.actors settings) source = .ok (log, session) ∧
      compiler.render source = .ok session ∧
      (log.filter Call.claims).map (·.block) =
        (preparedBlocks between source).filter (fun block => block.lines.any (!·.isBlank)) ∧
      (∀ call ∈ log, call.handler = "offsets" → call.Sound) ∧
      (∀ call ∈ log, "offsets" ∈ call.around → call.claims = false) ∧
      session.tracker? = some tracker ∧ tracker.guard = .idle ∧
      (∀ line, tracker.lastClaimed = some line ↔ HasContent (preparedLines between source) line ∧
        ∀ later, line < later → ¬HasContent (preparedLines between source) later) ∧
      ∀ node element, session.tree.get? node = some element →
        (∃ name ∈ (AttributeNames.ofLead settings.attributeLead).toList,
          (element.attributes.get? name).isSome = true) →
        node ∈ session.tree.childrenOf Tree.root := by
  obtain ⟨log, session, told, rendered, attended, line, tracker, behind⟩ :=
    manned.attended source unbroken
  have sound := attended.sound
  have bare := manned.tree_startSession source
  refine ⟨log, session, tracker, told, rendered, ?_, sound, fun call member =>
    Call.claims_of_handed (sound call member), behind.tracked, behind.idle, ?_, ?_⟩
  · rw [attended.claimed_eq]
    apply List.filter_congr
    intro block _
    rw [Bool.eq_iff_iff, Bool.not_eq_true', ← Bool.not_eq_true, Text.isBlank_iff_forall_lines]
    simp
  · intro line
    have last := attended.lastClaimed_eq (Session.tracker?_setTracker _ _) behind.tracked
    rw [preparedBlocks, ← numbered_joinLines unbroken] at last
    rw [← getLast?_numbered_eq_some_iff, last]
    exact Eq.congr_left Option.or_none
  · rintro node element found ⟨name, member, written⟩
    have topmost : Topmost settings.attributeLead session.tree :=
      attended.topmost (bare ▸ .empty settings.attributeLead)
    by_contra outside
    rw [topmost.bare node element found outside name member] at written
    cases written

/-- A section around each block, in which its text is parsed once more. -/
theorem render_claims_once_wrapped :
    let wrapper : Wrapper := ⟨"wrap", "section", fun _ _ => true⟩
    let crew : Crew := .wrapped wrapper (by decide)
    let compiler := (extension { debug := true } .reference).addHandler 150 wrapper.handler
    let source : Text := "> - a\n> - a\n\n\na\n# a\n".toList
    ∃ log session tracker,
      compiler.calls (crew.actors { debug := true }) source = .ok (log, session) ∧
      compiler.render source = .ok session ∧
      (log.filter Call.claims).map (·.block) = ["> - a\n> - a".toList, "\na\n# a\n".toList] ∧
      (∀ call ∈ log, "offsets" ∈ call.around → call.claims = false) ∧
      session.tracker? = some tracker ∧ tracker.guard = .idle ∧ tracker.lastClaimed = some 5 := by
  intro wrapper crew compiler source
  have manned : Manned .shortest { debug := true } referenceStages crew compiler :=
    ⟨⟨rfl, referenceStages_prepare⟩, rfl⟩
  have lines : preparedLines referenceStages source =
      ["> - a".toList, "> - a".toList, [], [], "a".toList, "# a".toList, []] := by
    decide +kernel
  have unbroken : Unbroken (preparedLines referenceStages source) := by
    rw [lines]
    unfold Unbroken
    decide
  obtain ⟨log, session, tracker, told, rendered, claimed, -, quiet, tracked, idle, last, -⟩ :=
    render_claims_once manned source unbroken
  have blocks : (preparedBlocks referenceStages source).filter
      (fun block => block.lines.any (!·.isBlank)) =
      ["> - a\n> - a".toList, "\na\n# a\n".toList] := by
    decide +kernel
  refine ⟨log, session, tracker, told, rendered, claimed.trans blocks, quiet, tracked, idle,
    (last 5).2 ?_⟩
  rw [lines]
  refine ⟨⟨_, rfl, rfl⟩, ?_⟩
  rintro later behind ⟨text, found, content⟩
  -- Behind the last line with content stands only an empty line.
  have within := (List.getElem?_eq_some_iff.1 found).1
  have six : later = 6 := Nat.le_antisymm (Nat.lt_succ_iff.1 within) behind
  subst six
  cases found
  cases content

end Offsets

end Tracemark
