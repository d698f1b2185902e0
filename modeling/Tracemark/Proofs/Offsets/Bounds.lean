import Tracemark.Proofs.Offsets.Notes
import Tracemark.Proofs.Offsets.Traced
import Tracemark.Proofs.Stage.Unbroken

/-! The bounds and the order of spans.

Whatever the stages between have made of the lines, an origin starts and stops at lines of the source,
and behind all that earlier origins were traced to. A mark therefore never ends before it starts, and
along the children of the root the marks go forward.
-/

set_option autoImplicit false

namespace Tracemark.Offsets

open Tracemark.Alignment (Differ RestoreMap lineKey)

/-- A mark runs from the start of a source line to the stop of the same or a later one, both of which
stand before line `reach`. -/
def Mark.Spans (lines : List Text) (reach : Nat) (mark : Mark) : Prop :=
  ∃ i j first last, i ≤ j ∧ j < reach ∧ (LineIndex.build lines).get? i = some first ∧
    (LineIndex.build lines).get? j = some last ∧ mark.start = first.start ∧ mark.stop = last.stop

def InOrder (marks : NodeId → Option Mark) (node later : NodeId) : Prop :=
  ∀ first second, marks node = some first → marks later = some second →
    first.start ≤ second.start ∧ first.stop ≤ second.stop

structure NodeSpan.Bounded (source : Text) (span : NodeSpan) : Prop where
  start_le_stop : span.start ≤ span.stop
  stop_le : span.stop ≤ source.octets
  slice : (source.slice? span.start span.stop).isSome
  start : ∃ record ∈ (LineIndex.build source.lines).records, span.start = record.start
  stop : ∃ record ∈ (LineIndex.build source.lines).records, span.stop = record.stop

structure Settled (lead : String) (lines : List Text) (line : Nat) (session : Session)
    (marks : NodeId → Option Mark) (reach : Nat) : Prop where
  tracked : ∃ tracker restore, session.tracker? = some tracker ∧
    tracker.index = .build lines ∧ tracker.Reached restore line reach
  noted : Noted lead session.tree marks
  spans : ∀ node mark, marks node = some mark → mark.Spans lines reach
  sorted : (session.tree.childrenOf Tree.root).Pairwise (InOrder marks)

variable {settings : Settings} {lead : String} {lines : List Text} {line reach reach' : Nat}
  {block : Text} {blocks : List Text} {before after : Session} {turns : List Turn}
  {marks : NodeId → Option Mark} {mark : Mark} {origin : Origin} {debug : Bool}
  {last : Option NodeId} {node : NodeId} {old fresh : List NodeId}

theorem Mark.Spans.mono (spans : mark.Spans lines reach) (more : reach ≤ reach') :
    mark.Spans lines reach' := by
  obtain ⟨i, j, first, last, before, within, facts⟩ := spans
  exact ⟨i, j, first, last, before, Nat.lt_of_lt_of_le within more, facts⟩

theorem Mark.Spans.start_le_stop (spans : mark.Spans lines reach) : mark.start ≤ mark.stop := by
  obtain ⟨i, j, first, last, before, -, here, there, same, same'⟩ := spans
  rw [same, same']
  exact LineIndex.start_le_stop here there before

theorem Mark.Spans.stop_lt (spans : mark.Spans lines reach) {place : Nat} {record : LineRecord}
    (behind : reach ≤ place) (found : (LineIndex.build lines).get? place = some record) :
    mark.stop < record.start := by
  obtain ⟨i, j, first, last, -, within, -, there, -, same⟩ := spans
  rw [same]
  exact LineIndex.stop_lt_start there found (Nat.lt_of_lt_of_le within behind)

theorem recorded_eq_some (found : recorded debug origin last fresh marks node = some mark) :
    marks node = some mark ∨ mark = .made debug origin ∨ mark = .moved debug origin (marks node) := by
  cases fresh with
  | nil =>
    cases last with
    | none => exact .inl found
    | some last =>
      by_cases same : node = last
      · subst same
        simp only [recorded, Function.update_self, Option.some.injEq] at found
        exact .inr (.inr found.symm)
      · simp only [recorded, Function.update_of_ne same] at found
        exact .inl found
  | cons first rest =>
    by_cases member : node ∈ first :: rest
    · simp only [recorded, member, if_true, Option.some.injEq] at found
      exact .inr (.inl found.symm)
    · simp only [recorded, member, if_false] at found
      exact .inl found

theorem spans_recorded (spans : ∀ node mark, marks node = some mark → mark.Spans lines reach)
    {place next : Nat} {first final : LineRecord} (behind : reach ≤ place) (content : place < next)
    (here : (LineIndex.build lines).get? place = some first)
    (there : (LineIndex.build lines).get? (next - 1) = some final)
    (start : origin.start = first.start) (stop : origin.stop = final.stop)
    (found : recorded debug origin last fresh marks node = some mark) : mark.Spans lines next := by
  have whole : (Mark.made debug origin).Spans lines next :=
    ⟨place, next - 1, first, final, by omega, by omega, here, there, start, stop⟩
  rcases recorded_eq_some found with kept | rfl | rfl
  · exact (spans node mark kept).mono (by omega)
  · exact whole
  · cases kept : marks node with
    | none => exact whole
    | some held =>
      obtain ⟨i, j, first', last', before, within, here', -, same, -⟩ := spans node held kept
      exact ⟨i, next - 1, first', final, by omega, by omega, here', there, same, stop⟩

theorem pairwise_congr {marks' : NodeId → Option Mark} {nodes : List NodeId}
    (kept : ∀ node ∈ nodes, marks' node = marks node) (sorted : nodes.Pairwise (InOrder marks)) :
    nodes.Pairwise (InOrder marks') := by
  apply sorted.imp_of_mem
  intro node later member member' inOrder mark mark' found found'
  rw [kept node member] at found
  rw [kept later member'] at found'
  exact inOrder mark mark' found found'

section

variable (forward : origin.start ≤ origin.stop)
  (behind : ∀ node mark, marks node = some mark → mark.start ≤ mark.stop ∧ mark.stop ≤ origin.start)

include forward behind

-- The last child alone gets another mark, and it has all others before it.
theorem sorted_moved {front : List NodeId} {last : NodeId} (distinct : (front ++ [last]).Nodup)
    (sorted : (front ++ [last]).Pairwise (InOrder marks)) :
    (front ++ [last]).Pairwise (InOrder (recorded debug origin (some last) [] marks)) := by
  obtain ⟨-, -, apart⟩ := List.nodup_append.1 distinct
  obtain ⟨sortedFront, -, cross⟩ := List.pairwise_append.1 sorted
  have kept : ∀ node ∈ front, recorded debug origin (some last) [] marks node = marks node :=
    fun node member => Function.update_of_ne (apart node member last (List.mem_singleton_self _)) _ _
  rw [List.pairwise_append]
  refine ⟨pairwise_congr kept sortedFront, List.pairwise_singleton _ _, ?_⟩
  intro node member other same mark mark' found found'
  rw [List.mem_singleton] at same
  subst same
  rw [kept node member] at found
  simp only [recorded, Function.update_self, Option.some.injEq] at found'
  subst found'
  have limits := behind node mark found
  refine ⟨?_, Nat.le_trans limits.2 forward⟩
  -- An end that was there already keeps its start.
  cases held : marks other with
  | none => exact Nat.le_trans limits.1 limits.2
  | some mark' => exact (cross node member other (List.mem_singleton_self _) mark mark' found held).1

-- New children all get one mark, which lies behind those of the older children.
theorem sorted_made {first : NodeId} {rest : List NodeId} (distinct : (old ++ first :: rest).Nodup)
    (sorted : old.Pairwise (InOrder marks)) :
    (old ++ first :: rest).Pairwise
      (InOrder (recorded debug origin last (first :: rest) marks)) := by
  obtain ⟨-, -, apart⟩ := List.nodup_append.1 distinct
  have kept : ∀ node ∈ old, recorded debug origin last (first :: rest) marks node = marks node :=
    fun node member => if_neg fun new => apart node member node new rfl
  have made : ∀ node ∈ first :: rest,
      recorded debug origin last (first :: rest) marks node = some (.made debug origin) :=
    fun node member => if_pos member
  rw [List.pairwise_append]
  refine ⟨pairwise_congr kept sorted, ?_, ?_⟩
  · apply List.pairwise_of_forall_mem_list
    intro node member other member' mark mark' found found'
    rw [made node member] at found
    rw [made other member'] at found'
    cases found
    cases found'
    exact ⟨Nat.le_refl _, Nat.le_refl _⟩
  · intro node member other member' mark mark' found found'
    rw [kept node member] at found
    rw [made other member'] at found'
    cases found'
    have limits := behind node mark found
    exact ⟨Nat.le_trans limits.1 limits.2, Nat.le_trans limits.2 forward⟩

/-- An origin that starts behind all marks leaves them in order. -/
theorem sorted_recorded (distinct : (old ++ fresh).Nodup) (sorted : old.Pairwise (InOrder marks)) :
    (old ++ fresh).Pairwise (InOrder (recorded debug origin (old ++ fresh).getLast? fresh marks)) := by
  cases fresh with
  | nil =>
    rw [List.append_nil] at distinct ⊢
    rcases List.eq_nil_or_concat' old with rfl | ⟨front, last, rfl⟩
    · exact .nil
    · rw [List.getLast?_concat]
      exact sorted_moved forward behind distinct sorted
  | cons first rest => exact sorted_made forward behind distinct sorted

end

theorem sorted_append (sorted : old.Pairwise (InOrder marks))
    (unmarked : ∀ node ∈ fresh, marks node = none) : (old ++ fresh).Pairwise (InOrder marks) := by
  rw [List.pairwise_append]
  refine ⟨sorted, ?_, ?_⟩
  · apply List.pairwise_of_forall_mem_list
    intro node member other _ mark mark' found _
    rw [unmarked node member] at found
    cases found
  · intro node _ other member mark mark' _ found'
    rw [unmarked other member] at found'
    cases found'

theorem Turned.settled (turned : Turned settings line block before after)
    (settled : Settled settings.attributeLead lines line before marks reach) :
    ∃ marks' reach', Settled settings.attributeLead lines (line + block.lines.length + 1) after
      marks' reach' := by
  obtain ⟨⟨tracker, restore, tracked, index, reached⟩, noted, spans, sorted⟩ := settled
  cases turned with
  | blank _ =>
    have later := reached.mono (show line ≤ line + block.lines.length + 1 by omega)
    exact ⟨marks, reach, ⟨tracker, restore, tracked, index, later⟩, noted, spans, sorted⟩
  | @lost tracker' run grown failure tracked' found parsed _ =>
    cases tracked.symm.trans tracked'
    have grows := parsed.grows noted.ordered
    obtain ⟨fresh, children⟩ := parsed.exists_fresh noted.ordered
    have new := parsed.bounds_of_fresh noted.ordered children
    have claimed : (tracker.claimed run).Reached restore line reach := reached.of_eq rfl rfl rfl
    have later := claimed.mono (show line ≤ line + block.lines.length + 1 by omega)
    refine ⟨marks, reach, ⟨tracker.claimed run, restore, Session.tracker?_setTracker _ _, index, later⟩,
      noted.grown grows, spans, ?_⟩
    change (grown.childrenOf Tree.root).Pairwise (InOrder marks)
    rw [children]
    exact sorted_append sorted fun node member => noted.unmarked (new node member).1
  | @placed tracker' annotated run grown origin fresh tracked' found parsed annotate children =>
    cases tracked.symm.trans tracked'
    have grows := parsed.grows noted.ordered
    have new := parsed.bounds_of_fresh noted.ordered children
    have claimed : (tracker.claimed run).Reached restore line reach := reached.of_eq rfl rfl rfl
    obtain ⟨from', -, to'⟩ := bounds_of_contentRun? found
    obtain ⟨place, next, first, final, behind, content, here, there, start, stop, later⟩ :=
      claimed.annotate from' annotate
    obtain ⟨used, rfl⟩ := exists_used annotate
    change tracker.index.get? place = some first at here
    change tracker.index.get? (next - 1) = some final at there
    rw [index] at here there
    have distinct := grows.ordered.nodup_childrenOf Tree.root
    rw [children] at distinct
    have passed := later.mono (Nat.le_succ_of_le to')
    refine ⟨_, next, ⟨_, restore, Session.tracker?_setTracker _ _, index,
      passed.of_eq rfl rfl rfl⟩, noted.written grows children
        (fun node member => (new node member).1) _ origin, ?_, ?_⟩
    · intro node mark marked
      exact spans_recorded spans behind content here there start stop marked
    · change ((Stamper.written _ grown Tree.root origin fresh).childrenOf Tree.root).Pairwise _
      rw [Stamper.childrenOf_written, children]
      apply sorted_recorded _ _ distinct sorted
      · rw [start, stop]
        exact LineIndex.start_le_stop here there (Nat.le_sub_one_of_lt content)
      · intro node mark found
        rw [start]
        exact ⟨(spans node mark found).start_le_stop,
          Nat.le_of_lt ((spans node mark found).stop_lt behind here)⟩

theorem Followed.settled (followed : Followed settings line blocks before turns after)
    (settled : Settled settings.attributeLead lines line before marks reach) :
    ∃ line' marks' reach', Settled settings.attributeLead lines line' after marks' reach' := by
  induction followed generalizing marks reach with
  | done => exact ⟨_, marks, reach, settled⟩
  | turn turned _ ih =>
    obtain ⟨marks', reach', settled'⟩ := turned.settled settled
    exact ih settled'

theorem settled_start {differ : Differ} {between : List Stage} {compiler : Compiler}
    (traced : Traced differ settings between compiler) (source : Text)
    (checked : settings.strategy = .diff → (differ.script (source.lines.map lineKey)
      ((preparedLines between source).map lineKey)).isPartition source.lines.length
        (preparedLines between source).length = true) :
    Settled lead source.lines 0 (startSession differ settings between source) (fun _ => none) 0 := by
  have bare := traced.staged.tree_startSession source
  have fills := RestoreMap.fills_align checked
  refine ⟨⟨startTracker differ settings between source, .align settings.strategy source.lines
    (preparedLines between source) differ, Session.tracker?_setTracker _ _, rfl, ?_⟩, ?_, ?_, ?_⟩
  · refine ⟨restoreMap?_startTracker source,
      ⟨(preparedLines between source).length, ?_⟩, ?_, .zero _ _⟩
    · change Alignment.EditScript.Fills _ ⟨0, (LineIndex.build source.lines).size⟩ _
      rw [LineIndex.size_build]
      exact fills
    · change (source.lines.map fun _ => false).length = (LineIndex.build source.lines).size
      rw [LineIndex.size_build, List.length_map]
  · rw [bare]
    exact noted_empty lead
  · intro node mark found
    cases found
  · rw [bare]
    exact .nil

/-- Every span of a rendered document is a slice of the source that starts with a line and stops with
one, and the spans of a document go forward, whatever the stages between have made of the lines. -/
theorem spans_bounded_ordered {differ : Differ} {settings : Settings} {between : List Stage}
    {compiler : Compiler}
    (traced : Traced differ settings between compiler) (source : Text)
    (unbroken : Unbroken (preparedLines between source))
    (checked : settings.strategy = .diff → (differ.script (source.lines.map lineKey)
      ((preparedLines between source).map lineKey)).isPartition source.lines.length
        (preparedLines between source).length = true) :
    ∃ session spans, compiler.render source = .ok session ∧
      collectSpans session.tree settings.attributeLead = .ok spans ∧
      (∀ span ∈ spans, span.Bounded source) ∧
      spans.Pairwise fun span later => span.start ≤ later.start ∧ span.stop ≤ later.stop := by
  obtain ⟨turns, session, -, rendered, followed⟩ := traced.followed source unbroken
  obtain ⟨line, marks, reach, settled⟩ := followed.settled (settled_start traced source checked)
  obtain ⟨spans, collected, order, marked⟩ := settled.noted.collectSpans_eq_ok
  have whole : Text.joinLines source.lines = source := Text.joinLines_lines source
  refine ⟨session, spans, rendered, collected, fun span member => ?_, ?_⟩
  · obtain ⟨mark, found, start, stop, -⟩ := marked span member
    have ends := (settled.spans span.node mark found).start_le_stop
    obtain ⟨i, j, first, last, before, -, here, there, same, same'⟩ :=
      settled.spans span.node mark found
    have within := LineIndex.stop_le_octets there
    have slice := LineIndex.slice?_lines here there before
    rw [whole] at within slice
    rw [← start, ← stop] at ends
    rw [← start] at same
    rw [← stop] at same'
    refine ⟨ends, same' ▸ within, ?_, ⟨first, List.mem_of_getElem? here, same⟩,
      last, List.mem_of_getElem? there, same'⟩
    rw [same, same', slice]
    rfl
  · have sorted := settled.sorted.sublist order
    rw [List.pairwise_map] at sorted
    apply sorted.imp_of_mem
    intro span later member member' inOrder
    obtain ⟨mark, found, start, stop, -⟩ := marked span member
    obtain ⟨mark', found', start', stop', -⟩ := marked later member'
    rw [start, stop, start', stop']
    exact inOrder mark mark' found found'

theorem spans_bounded_ordered_indented : ∃ session spans,
    (extension { debug := true } .reference).render "# a\n\tb".toList = .ok session ∧
      collectSpans session.tree "data-" = .ok spans ∧
      (∀ span ∈ spans, span.Bounded "# a\n\tb".toList) ∧
      spans.Pairwise fun span later => span.start ≤ later.start ∧ span.stop ≤ later.stop :=
  spans_bounded_ordered (traced_extension_reference .shortest { debug := true }) "# a\n\tb".toList
    (by unfold Unbroken; decide +kernel) (fun _ => by decide +kernel)

end Tracemark.Offsets
