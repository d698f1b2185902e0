import Tracemark.Offsets.Tracker
import Tracemark.Proofs.Alignment.Location
import Tracemark.Proofs.Offsets.Records

/-! Origins of claimed lines.

Origins that are written one after another come from source lines that stand in order and do not
overlap. A start that is only approximate moves on over lines that are used or blank, and thereby over
all that earlier origins were traced to.
-/

set_option autoImplicit false

namespace Tracemark.Offsets

open Tracemark.Alignment (Differ Location RestoreMap Strategy)
open Tracemark.Alignment.EditScript (Fills)

variable {tracker annotated : Tracker} {span : Interval} {origin : Origin}

theorem annotate_eq_ok (found : tracker.annotate span = .ok (origin, annotated)) :
    ∃ restore location lines octets, tracker.restoreMap? = some restore ∧
      restore.locate span = .ok location ∧ tracker.placed? location = some lines ∧
      tracker.index.octetRange lines = .ok octets ∧
      origin = ⟨octets.start, octets.stop, location.startAccurate, location.endAccurate⟩ ∧
      annotated = tracker.use lines := by
  unfold Tracker.annotate at found
  cases aligned : tracker.restoreMap? with
  | none => simp [aligned, throw, throwThe, MonadExceptOf.throw] at found
  | some restore =>
    cases located : restore.locate span with
    | error failure => simp [aligned, located, bind, Except.bind] at found
    | ok location =>
      cases placed : tracker.placed? location with
      | none =>
        simp [aligned, located, placed, bind, Except.bind, throw, throwThe, MonadExceptOf.throw]
          at found
      | some lines =>
        cases range : tracker.index.octetRange lines with
        | error failure => simp [aligned, located, placed, range, bind, Except.bind] at found
        | ok octets =>
          simp only [aligned, located, placed, range, bind, Except.bind, pure, Except.pure,
            Except.ok.injEq, Prod.mk.injEq] at found
          exact ⟨restore, location, lines, octets, rfl, located, placed, range, found.1.symm,
            found.2.symm⟩

namespace Tracker

theorem restoreMap?_align (differ : Differ) (strategy : Strategy) (source mutated : List Text) :
    ((ofLines source).align strategy mutated differ).restoreMap? =
      some (.align strategy source mutated differ) := by
  have texts : (LineIndex.build source).records.map (·.text) = source :=
    LineIndex.map_text_recordsFrom 0 source
  change some (RestoreMap.align strategy ((LineIndex.build source).records.map (·.text)) mutated differ)
    = _
  rw [texts]

/-- No approximate start is placed on the source line. -/
def Taken (tracker : Tracker) (line : Nat) : Prop :=
  tracker.isUsed line = true ∨
    ((tracker.index.get? line).map LineRecord.isBlank).getD false = true

/-- The source lines before `reach` are behind what mutated lines from `line` on are traced to. -/
structure Reached (tracker : Tracker) (restore : RestoreMap) (line reach : Nat) : Prop where
  restored : tracker.restoreMap? = some restore
  fills : ∃ mutated, Fills restore.script ⟨0, tracker.index.size⟩ ⟨0, mutated⟩
  used : tracker.used.length = tracker.index.size
  passed : RestoreMap.Passed restore.script tracker.Taken line reach

variable {location : Location} {lines : Interval} {restore : RestoreMap} {line line' reach : Nat}

theorem placed?_of_accurate (accurate : location.startAccurate = true) :
    tracker.placed? location = some location.source :=
  if_pos accurate

-- An approximate start is the first line of its window that is not taken.
theorem placed?_of_not_accurate (approximate : location.startAccurate = false)
    (found : tracker.placed? location = some lines) :
    lines.stop = location.source.stop ∧ location.source.start ≤ lines.start ∧
      lines.start < location.startWindow.stop ∧ lines.start < lines.stop ∧
      ¬tracker.Taken lines.start ∧
      ∀ line, location.source.start ≤ line → line < lines.start → tracker.Taken line := by
  unfold placed? at found
  simp only [approximate, Bool.false_eq_true, if_false] at found
  obtain ⟨start, first, rfl⟩ := Option.map_eq_some_iff.1 found
  have free := List.find?_some first
  have inside := Interval.mem_toList.1 (List.mem_of_find?_eq_some first)
  simp only [Interval.mem_iff] at inside
  simp only [Bool.and_eq_true, Bool.not_eq_true'] at free
  refine ⟨rfl, inside.1, by simp only; omega, by simp only; omega, ?_, fun line from' below => ?_⟩
  · rintro (used | blank)
    · rw [free.1] at used
      cases used
    · rw [free.2] at blank
      cases blank
  · obtain ⟨-, count, bound, here, taken⟩ := List.find?_eq_some_iff_getElem.1 first
    simp only [Interval.toList, List.getElem_range', Nat.one_mul] at here taken
    have skipped := taken (line - location.source.start) (by simp only at below; omega)
    have same : location.source.start + (line - location.source.start) = line := by omega
    simp only [same, Bool.not_and, Bool.not_not, Bool.or_eq_true] at skipped
    exact skipped

theorem taken_use (lines : Interval) (taken : tracker.Taken line) : (tracker.use lines).Taken line := by
  rcases taken with used | blank
  · left
    unfold isUsed use at *
    rw [List.getElem?_mapIdx]
    cases here : tracker.used[line]? with
    | none =>
      rw [here] at used
      cases used
    | some flag =>
      rw [here] at used
      simp_all
  · exact .inr blank

theorem taken_of_mem_use (within : line < tracker.used.length) (member : line ∈ lines) :
    (tracker.use lines).Taken line := by
  left
  unfold isUsed use
  rw [List.getElem?_mapIdx, List.getElem?_eq_getElem within]
  simpa using .inr member

theorem Reached.mono (reached : tracker.Reached restore line reach) (later : line ≤ line') :
    tracker.Reached restore line' reach :=
  { reached with passed := reached.passed.mono later fun _ => id }

theorem Reached.of_eq (reached : tracker.Reached restore line reach) {other : Tracker}
    (index : other.index = tracker.index) (alignment : other.alignment = tracker.alignment)
    (used : other.used = tracker.used) : other.Reached restore line reach := by
  obtain ⟨restored, fills, length, passed⟩ := reached
  have taken : other.Taken = tracker.Taken := by
    funext line
    simp only [Taken, isUsed, index, used]
  refine ⟨?_, index ▸ fills, by rw [index, used, length], taken ▸ passed⟩
  rw [← restored, restoreMap?, restoreMap?, alignment]

theorem Reached.placed (reached : tracker.Reached restore line reach) (behind : line ≤ span.start)
    (locate : restore.locate span = .ok location) (placed : tracker.placed? location = some lines) :
    reach ≤ lines.start ∧ lines.start < lines.stop ∧ lines.stop ≤ tracker.index.size ∧
      (tracker.use lines).Reached restore span.stop lines.stop := by
  obtain ⟨restored, ⟨mutated, fills⟩, used, passed⟩ := reached
  obtain ⟨start, stop, op, last, before, after, located⟩ := RestoreMap.locate_eq_ok locate
  have fresh := located.not_passed passed behind
  have below := located.source_stop_le fills
  have kind := located.startAccurate_eq
  -- The lines of the origin are taken now, and those before them were taken already.
  have rest (whole : lines.stop = location.source.stop) (inFirst : lines.start < op.source.stop)
      (skipped : op.kind = .replace →
        ∀ line, op.source.start ≤ line → line < lines.start → tracker.Taken line) :
      (tracker.use lines).Reached restore span.stop lines.stop := by
    refine ⟨restored, ⟨mutated, fills⟩, ?_, ?_⟩
    · exact List.length_mapIdx.trans used
    · rw [whole]
      apply located.passed fills inFirst
        fun replace line from' early => taken_use lines (skipped replace line from' early)
      intro line from' early
      apply taken_of_mem_use (by omega)
      rw [Interval.mem_iff]
      omega
  cases accurate : location.startAccurate with
  | true =>
    rw [placed?_of_accurate accurate] at placed
    cases placed
    rw [accurate] at fresh kind
    have equal : op.kind = .equal := of_decide_eq_true kind.symm
    refine ⟨fresh, located.content, below, ?_⟩
    apply rest rfl (located.startUnder_lt fills)
    intro replace
    rw [equal] at replace
    cases replace
  | false =>
    obtain ⟨whole, from', window, content, free, skipped⟩ := placed?_of_not_accurate accurate placed
    rw [accurate] at fresh kind
    have different : op.kind ≠ .equal := of_decide_eq_false kind.symm
    have window_eq : location.startWindow = op.source := by
      rw [located.startWindow_eq, if_neg different]
    have start_eq : location.source.start = op.source.start := by
      rw [located.source_eq]
      exact if_neg different
    refine ⟨?_, content, whole ▸ below, ?_⟩
    -- Were the start before `reach`, it would be taken.
    · by_contra early
      exact free (fresh _ from' (Nat.not_le.1 early))
    · exact rest whole (window_eq ▸ window) fun _ => start_eq ▸ skipped

-- An origin comes from lines that were not reached before.
theorem Reached.annotate (reached : tracker.Reached restore line reach) (behind : line ≤ span.start)
    (found : tracker.annotate span = .ok (origin, annotated)) :
    ∃ place next first last, reach ≤ place ∧ place < next ∧
      tracker.index.get? place = some first ∧ tracker.index.get? (next - 1) = some last ∧
      origin.start = first.start ∧ origin.stop = last.stop ∧
      annotated.Reached restore span.stop next := by
  obtain ⟨restore', location, lines, octets, same, locate, placed, range, rfl, rfl⟩ :=
    annotate_eq_ok found
  rw [reached.restored] at same
  cases same
  obtain ⟨fresh, content, -, later⟩ := reached.placed behind locate placed
  obtain ⟨first, last, here, there, -, rfl⟩ := LineIndex.octetRange_eq_ok range
  exact ⟨lines.start, lines.stop, first, last, fresh, content, here, there, rfl, rfl, later⟩

end Tracker

end Tracemark.Offsets
