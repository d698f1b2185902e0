import Mathlib.Data.List.ReduceOption
import Tracemark.Proofs.Offsets.Faithful

/-! Source lines that have an owner.

Spans that go forward and do not overlap are traced one after another. Each of them comes to own source
lines, which lie behind all that the spans before it own, or it has no lines of its own and changes
nothing. The lines with an owner are those that count as used.
-/

set_option autoImplicit false

namespace Tracemark

open Tracemark.Alignment (Differ Location RestoreMap Strategy)

namespace Offsets

structure Attempt where
  span : Interval
  before : Tracker
  result : Except Failure Origin
  after : Tracker

namespace Tracker

def attempt (tracker : Tracker) (span : Interval) : Attempt :=
  match tracker.annotate span with
  | .ok (origin, annotated) => ⟨span, tracker, .ok origin, annotated⟩
  | .error failure => ⟨span, tracker, .error failure, tracker⟩

def attempts : Tracker → List Interval → List Attempt
  | _, [] => []
  | tracker, span :: rest => tracker.attempt span :: (tracker.attempt span).after.attempts rest

def annotateAll (tracker : Tracker) (spans : List Interval) : Tracker :=
  spans.foldl (fun tracker span => (tracker.attempt span).after) tracker

structure Untraced (tracker : Tracker) (source : List Text) (restore : RestoreMap) : Prop where
  index : tracker.index = .build source
  restored : tracker.restoreMap? = some restore
  partition : restore.script.isPartition source.length tracker.mutatedLines.length = true
  /-- No run ends before it starts. The check alone passes an empty run that steps back, which no
  alignment writes. -/
  forward : ∀ op ∈ restore.script, op.Forward
  unused : tracker.used = source.map fun _ => false

end Tracker

/-- What an attempt comes to own: lines of the source, which it is traced to and which it uses. An
attempt that has no mapping owns nothing and changes nothing. -/
def Attempt.Owns (source : List Text) (attempt : Attempt) : Option Interval → Prop
  | some lines => ∃ origin own, attempt.result = .ok origin ∧ lines.start < lines.stop ∧
      lines.slice? source = some own ∧
      attempt.before.index.octetRange lines = .ok ⟨origin.start, origin.stop⟩ ∧
      attempt.after = attempt.before.use lines ∧
      attempt.after.sourceText origin = Text.joinLines own
  | none => attempt.result = .error (.noMapping attempt.span) ∧ attempt.after = attempt.before

variable {tracker : Tracker} {source : List Text} {restore : RestoreMap} {span lines : Interval}
  {spans : List Interval} {line reach : Nat} {failure : Failure} {origin : Origin} {annotated : Tracker}

namespace Tracker

theorem isUsed_use : (tracker.use lines).isUsed line = true ↔
    tracker.isUsed line = true ∨ line ∈ lines ∧ line < tracker.used.length := by
  unfold isUsed use
  rw [List.getElem?_mapIdx]
  rcases Nat.lt_or_ge line tracker.used.length with within | outside
  · simp [within]
  · simp [Nat.not_lt.2 outside]

theorem isUsed_use_of_le (within : lines.stop ≤ tracker.used.length) :
    (tracker.use lines).isUsed line = true ↔ tracker.isUsed line = true ∨ line ∈ lines := by
  rw [isUsed_use, and_iff_left_of_imp]
  exact fun inside => Nat.lt_of_lt_of_le inside.2 within

theorem Reached.exists_annotate (reached : tracker.Reached restore line reach)
    (index : tracker.index = .build source) (behind : line ≤ span.start) {location : Location}
    (locate : restore.locate span = .ok location) (placed : tracker.placed? location = some lines) :
    ∃ origin, tracker.annotate span = .ok (origin, tracker.use lines) := by
  obtain ⟨-, content, within, -⟩ := reached.placed behind locate placed
  rw [index, LineIndex.size_build] at within
  obtain ⟨first, last, -, -, range, -⟩ := LineIndex.exists_octets content within
  rw [← index] at range
  unfold Tracker.annotate
  simp only [reached.restored, locate, placed, range, bind, Except.bind, pure, Except.pure]
  exact ⟨_, rfl⟩

theorem Reached.annotate_eq_error (reached : tracker.Reached restore line reach)
    (index : tracker.index = .build source) (behind : line ≤ span.start)
    (lost : tracker.annotate span = .error failure) : failure = .noMapping span := by
  cases locate : restore.locate span with
  | error cause =>
    unfold Tracker.annotate at lost
    simp only [reached.restored, locate, bind, Except.bind, Except.error.injEq] at lost
    exact lost ▸ RestoreMap.locate_eq_error locate
  | ok location =>
    cases placed : tracker.placed? location with
    | none =>
      unfold Tracker.annotate at lost
      simp only [reached.restored, locate, placed, bind, Except.bind, throw, throwThe,
        MonadExceptOf.throw, Except.error.injEq] at lost
      exact lost.symm
    | some lines =>
      obtain ⟨origin, found⟩ := reached.exists_annotate index behind locate placed
      cases found.symm.trans lost

-- The lines under an origin are its own, and none of them was reached before.
theorem Reached.owns (reached : tracker.Reached restore line reach)
    (index : tracker.index = .build source) (behind : line ≤ span.start)
    (found : tracker.annotate span = .ok (origin, annotated)) :
    ∃ lines, (tracker.attempt span).Owns source (some lines) ∧ annotated = tracker.use lines ∧
      reach ≤ lines.start ∧ lines.stop ≤ tracker.used.length ∧
      annotated.Reached restore span.stop lines.stop := by
  obtain ⟨restore', location, lines, octets, same, locate, placed, range, origin_eq, rfl⟩ :=
    annotate_eq_ok found
  rw [reached.restored] at same
  cases same
  obtain ⟨fresh, content, within, later⟩ := reached.placed behind locate placed
  obtain ⟨first, last, here, there, -, octets_eq⟩ := LineIndex.octetRange_eq_ok range
  have attempt : tracker.attempt span = ⟨span, tracker, .ok origin, tracker.use lines⟩ := by
    rw [Tracker.attempt, found]
  have text : (tracker.use lines).sourceText origin =
      Text.joinLines ((source.drop lines.start).take lines.length) := by
    rw [index] at here there
    have slice := LineIndex.slice?_lines here there (Nat.le_sub_one_of_lt content)
    rw [Nat.sub_add_cancel (Nat.one_le_of_lt content)] at slice
    rw [sourceText, origin_eq, octets_eq]
    change (tracker.index.text? _).getD [] = _
    rw [index]
    exact congrArg (Option.getD · []) slice
  have inside : lines.stop ≤ source.length := by
    rwa [index, LineIndex.size_build] at within
  refine ⟨lines, ?_, rfl, fresh, reached.used ▸ within, later⟩
  rw [attempt]
  refine ⟨origin, _, rfl, content, if_pos ⟨Nat.le_of_lt content, inside⟩, ?_, rfl, text⟩
  rw [origin_eq]
  exact range

/-- Spans that go forward come to own lines that go forward, and these lines are used. -/
theorem Reached.attempts (reached : tracker.Reached restore line reach)
    (index : tracker.index = .build source) (behind : ∀ span ∈ spans, line ≤ span.start)
    (ordered : spans.Pairwise fun span later => span.stop ≤ later.start) :
    ∃ owned, List.Forall₂ (Attempt.Owns source) (tracker.attempts spans) owned ∧
      owned.reduceOption.Pairwise (fun lines later => lines.stop ≤ later.start) ∧
      (∀ lines ∈ owned.reduceOption, reach ≤ lines.start) ∧
      ∀ line, (tracker.annotateAll spans).isUsed line = true ↔
        tracker.isUsed line = true ∨ ∃ lines ∈ owned.reduceOption, line ∈ lines := by
  induction spans generalizing tracker line reach with
  | nil => exact ⟨[], .nil, .nil, nofun, fun line => by simp [annotateAll, List.reduceOption]⟩
  | cons span rest ih =>
    rw [List.forall_mem_cons] at behind
    obtain ⟨after, ordered⟩ := List.pairwise_cons.1 ordered
    cases found : tracker.annotate span with
    | error failure =>
      have attempt : tracker.attempt span = ⟨span, tracker, .error failure, tracker⟩ := by
        rw [Tracker.attempt, found]
      obtain ⟨owned, traced, sorted, fresh, used⟩ := ih reached index behind.2 ordered
      have lost := reached.annotate_eq_error index behind.1 found
      refine ⟨none :: owned, ?_, ?_, ?_, ?_⟩
      · rw [Tracker.attempts, attempt]
        exact .cons ⟨congrArg Except.error lost, rfl⟩ traced
      · rwa [List.reduceOption_cons_of_none]
      · rwa [List.reduceOption_cons_of_none]
      · rw [annotateAll, List.foldl_cons, attempt, List.reduceOption_cons_of_none]
        exact used
    | ok made =>
      obtain ⟨origin, annotated⟩ := made
      obtain ⟨lines, owns, rfl, from', within, later⟩ := reached.owns index behind.1 found
      have next : (tracker.attempt span).after = tracker.use lines := by
        rw [Tracker.attempt, found]
      obtain ⟨owned, traced, sorted, fresh, used⟩ := ih later index after ordered
      have content : lines.start < lines.stop := by
        obtain ⟨-, -, -, content, -⟩ := owns
        exact content
      refine ⟨some lines :: owned, ?_, ?_, ?_, ?_⟩
      · rw [Tracker.attempts, next]
        exact .cons owns traced
      · rw [List.reduceOption_cons_of_some]
        exact .cons fresh sorted
      · rw [List.reduceOption_cons_of_some, List.forall_mem_cons]
        exact ⟨from', fun later member =>
          Nat.le_trans from' (Nat.le_trans (Nat.le_of_lt content) (fresh later member))⟩
      · intro line
        rw [annotateAll, List.foldl_cons, next, List.reduceOption_cons_of_some]
        change (Tracker.annotateAll _ rest).isUsed line = true ↔ _
        rw [used, isUsed_use_of_le within, List.exists_mem_cons_iff, or_assoc]

theorem Untraced.reached (untraced : tracker.Untraced source restore) :
    tracker.Reached restore 0 0 where
  restored := untraced.restored
  fills := by
    rw [untraced.index, LineIndex.size_build]
    exact ⟨_, untraced.partition, untraced.forward⟩
  used := by
    rw [untraced.unused, untraced.index, LineIndex.size_build, List.length_map]
  passed := .zero _ _

/-- The operations of an aligned script run forward, so all that is asked of it is the check. -/
theorem untraced_align {differ : Differ} {strategy : Strategy} {mutated : List Text}
    (partition : (RestoreMap.align strategy source mutated differ).script.isPartition source.length
      mutated.length = true) :
    ((ofLines source).align strategy mutated differ).Untraced source
      (RestoreMap.align strategy source mutated differ) where
  index := rfl
  restored := restoreMap?_align differ strategy source mutated
  partition := partition
  forward := RestoreMap.forward_align partition
  unused := rfl

end Tracker

/-- No source line comes to be owned twice. -/
theorem attempts_owned (untraced : tracker.Untraced source restore)
    (ordered : spans.Pairwise fun span later => span.stop ≤ later.start) :
    ∃ owned, List.Forall₂ (Attempt.Owns source) (tracker.attempts spans) owned ∧
      owned.reduceOption.Pairwise (fun lines later => lines.stop ≤ later.start) ∧
      ∀ line, (tracker.annotateAll spans).isUsed line = true ↔
        ∃ lines ∈ owned.reduceOption, line ∈ lines := by
  obtain ⟨owned, traced, sorted, -, used⟩ :=
    untraced.reached.attempts untraced.index (fun _ _ => Nat.zero_le _) ordered
  refine ⟨owned, traced, sorted, fun line => ?_⟩
  have unused : tracker.isUsed line = false := by
    rw [Tracker.isUsed, untraced.unused, List.getElem?_map]
    cases source[line]? with
    | none => rfl
    | some text => rfl
  rw [used, unused]
  simp

theorem attempts_owned_rewrite :
    let source : List Text := [['a', '1'], ['a', '2'], [], ['b', '1'], ['b', '2']]
    let mutated : List Text := [['A'], [], ['B']]
    let tracker := (Tracker.ofLines source).align .diff mutated
    let spans : List Interval := [⟨0, 1⟩, ⟨2, 3⟩, ⟨4, 5⟩]
    (RestoreMap.align .diff source mutated).script.isPartition 5 3 = true ∧
      spans.Pairwise (fun span later => span.stop ≤ later.start) ∧
      (∃ owned, List.Forall₂ (Attempt.Owns source) (tracker.attempts spans) owned ∧
        owned.reduceOption.Pairwise (fun lines later => lines.stop ≤ later.start) ∧
        ∀ line, (tracker.annotateAll spans).isUsed line = true ↔
          ∃ lines ∈ owned.reduceOption, line ∈ lines) ∧
      (tracker.attempts spans).map (·.result) =
        [.ok ⟨0, 5, false, false⟩, .ok ⟨7, 12, false, false⟩, .error (.noMapping ⟨4, 5⟩)] := by
  intro source mutated tracker spans
  have partition : (RestoreMap.align .diff source mutated).script.isPartition 5 3 = true := by
    decide +kernel
  have ordered : spans.Pairwise fun span later => span.stop ≤ later.start := by decide
  exact ⟨partition, ordered, attempts_owned (Tracker.untraced_align partition) ordered,
    by decide +kernel⟩

end Offsets

end Tracemark
