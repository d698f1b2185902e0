import Tracemark.Proofs.Alignment.Translation
import Tracemark.Proofs.Offsets.Ownership

/-! Spans without lines of their own.

A span has no mapping when none of its lines is kept. It has none either when it starts in a replacement
whose lines are all blank or owned by spans before it. Its start is sought among the lines of that
replacement only, even where the span goes on into equal lines.
-/

set_option autoImplicit false

namespace Tracemark.Offsets

open Tracemark.Alignment (Differ EditOp Location RestoreMap Strategy lineKey)

namespace Tracker

variable {tracker : Tracker} {source : List Text} {restore : RestoreMap} {span : Interval}
  {location : Location} {line reach : Nat}

theorem exists_annotateAll (tracker : Tracker) (spans : List Interval) :
    ∃ used, tracker.annotateAll spans = { tracker with used } ∧
      used.length = tracker.used.length := by
  induction spans generalizing tracker with
  | nil => exact ⟨tracker.used, rfl, rfl⟩
  | cons span rest ih =>
    have next : (tracker.attempt span).after = tracker ∨
        ∃ lines, (tracker.attempt span).after = tracker.use lines := by
      unfold attempt
      cases found : tracker.annotate span with
      | error failure => exact .inl rfl
      | ok made =>
        obtain ⟨-, -, lines, -, -, -, -, -, -, annotated⟩ := annotate_eq_ok found
        exact .inr ⟨lines, annotated⟩
    rw [annotateAll, List.foldl_cons]
    rcases next with same | ⟨lines, same⟩
    · rw [same]
      exact ih tracker
    · rw [same]
      obtain ⟨used, rest, length⟩ := ih (tracker.use lines)
      exact ⟨used, rest, length.trans List.length_mapIdx⟩

theorem Reached.annotateAll (reached : tracker.Reached restore line reach) (spans : List Interval) :
    (tracker.annotateAll spans).Reached restore 0 0 := by
  obtain ⟨used, same, length⟩ := tracker.exists_annotateAll spans
  rw [same]
  exact ⟨reached.restored, reached.fills, length.trans reached.used, .zero _ _⟩

theorem placed?_eq_none_iff : tracker.placed? location = none ↔
    location.startAccurate = false ∧ ∀ line, location.source.start ≤ line →
      line < location.startWindow.stop → line < location.source.stop → tracker.Taken line := by
  unfold placed?
  cases location.startAccurate with
  | true => simp
  | false =>
    -- A line is free when it is not taken.
    have taken_iff (line : Nat) : ¬(!tracker.isUsed line &&
        !((tracker.index.get? line).map LineRecord.isBlank).getD false) = true ↔
          tracker.Taken line := by
      rw [Bool.and_eq_true, Bool.not_eq_true', Bool.not_eq_true', not_and_or, Bool.not_eq_false,
        Bool.not_eq_false, Taken]
    simp only [Bool.false_eq_true, if_false, Option.map_eq_none_iff, List.find?_eq_none, true_and,
      taken_iff, Interval.mem_toList, Interval.mem_iff, Nat.lt_min, and_imp]

theorem Untraced.not_isUsed (untraced : tracker.Untraced source restore) (line : Nat) :
    ¬tracker.isUsed line = true := by
  rw [isUsed, untraced.unused, List.getElem?_map]
  cases source[line]? with
  | none => exact Bool.false_ne_true
  | some text => exact Bool.false_ne_true

theorem Untraced.taken_iff (untraced : tracker.Untraced source restore) {spans : List Interval}
    {owned : List Interval} (used : ∀ line, (tracker.annotateAll spans).isUsed line = true ↔
      tracker.isUsed line = true ∨ ∃ lines ∈ owned, line ∈ lines) (line : Nat) :
    (tracker.annotateAll spans).Taken line ↔
      (∃ text, source[line]? = some text ∧ text.isBlank = true) ∨ ∃ lines ∈ owned, line ∈ lines := by
  obtain ⟨after, same, -⟩ := tracker.exists_annotateAll spans
  have index : (tracker.annotateAll spans).index = .build source := by
    rw [same]
    exact untraced.index
  have blank : (((tracker.annotateAll spans).index.get? line).map LineRecord.isBlank).getD false =
      true ↔ ∃ text, source[line]? = some text ∧ text.isBlank = true := by
    rw [index, LineIndex.get?_build]
    cases source[line]? with
    | none => simp
    | some text => simp [LineRecord.isBlank]
  rw [Taken, blank, used, or_iff_right (untraced.not_isUsed line), or_comm]

theorem Reached.annotate_eq_error_iff (reached : tracker.Reached restore line reach)
    (index : tracker.index = .build source) (behind : line ≤ span.start) :
    tracker.annotate span = .error (.noMapping span) ↔
      restore.locate span = .error (.noMapping span) ∨
        ∃ location, restore.locate span = .ok location ∧ tracker.placed? location = none := by
  cases locate : restore.locate span with
  | error failure =>
    obtain rfl := RestoreMap.locate_eq_error locate
    refine iff_of_true ?_ (.inl rfl)
    unfold Tracker.annotate
    simp only [reached.restored, locate, bind, Except.bind]
  | ok location =>
    cases placed : tracker.placed? location with
    | none =>
      refine iff_of_true ?_ (.inr ⟨location, rfl, placed⟩)
      unfold Tracker.annotate
      simp only [reached.restored, locate, placed, bind, Except.bind, throw, throwThe,
        MonadExceptOf.throw]
    | some lines =>
      obtain ⟨origin, found⟩ := reached.exists_annotate index behind locate placed
      rw [found]
      refine iff_of_false nofun ?_
      rintro (lost | ⟨location, same, none⟩)
      · cases lost
      · cases same
        cases placed.symm.trans none

end Tracker

/-- The first line of a span that was not injected is in a replacement, and each source line of that in
front of the end of the location is blank or owned. -/
def Spent (map : RestoreMap) (source : List Text) (owned : List Interval) (span : Interval) : Prop :=
  ∃ location first, ∃ opening ∈ map.script, map.locate span = .ok location ∧
    map.script.FirstKept span first ∧ opening.kind = .replace ∧ first ∈ opening.mutated ∧
    ∀ line ∈ opening.source, line < location.source.stop →
      (∃ text, source[line]? = some text ∧ text.isBlank = true) ∨ ∃ lines ∈ owned, line ∈ lines

variable {tracker : Tracker} {map : RestoreMap} {source : List Text} {owned : List Interval}
  {span : Interval} {sourceEnd mutatedEnd : Nat}

/-- A span that is located and cannot be placed is spent. -/
theorem spent_iff (fills : map.script.Fills ⟨0, sourceEnd⟩ ⟨0, mutatedEnd⟩)
    (taken : ∀ line, tracker.Taken line ↔
      (∃ text, source[line]? = some text ∧ text.isBlank = true) ∨ ∃ lines ∈ owned, line ∈ lines) :
    (∃ location, map.locate span = .ok location ∧ tracker.placed? location = none) ↔
      Spent map source owned span := by
  constructor
  · rintro ⟨location, locate, unplaced⟩
    obtain ⟨start, stop, first, last, before, after, located⟩ := RestoreMap.locate_eq_ok locate
    obtain ⟨approximate, all⟩ := Tracker.placed?_eq_none_iff.1 unplaced
    obtain ⟨member, anchored⟩ := located.mem_first
    obtain ⟨kind, holds⟩ := EditOp.anchors_iff.1 anchored
    have replace : first.kind = .replace := by
      rw [located.startAccurate_eq, decide_eq_false_iff_not] at approximate
      exact kind.resolve_left approximate
    obtain ⟨start_eq, window⟩ := (located.translates fills).nearStart replace
    refine ⟨location, start, first, member, locate, located.firstKept, replace, holds, ?_⟩
    intro line inside content
    rw [start_eq, window] at all
    exact (taken line).1 (all line inside.1 inside.2 content)
  · rintro ⟨location, line, opening, member, locate, firstKept, replace, holds, all⟩
    obtain ⟨start, stop, first, last, before, after, located⟩ := RestoreMap.locate_eq_ok locate
    obtain ⟨member', anchored⟩ := located.mem_first
    obtain rfl := firstKept.eq located.firstKept
    obtain rfl := fills.eq_of_mem member member' holds (EditOp.anchors_iff.1 anchored).2
    obtain ⟨start_eq, window⟩ := (located.translates fills).nearStart replace
    refine ⟨location, locate, Tracker.placed?_eq_none_iff.2 ⟨?_, fun line from' to' content => ?_⟩⟩
    · rw [located.startAccurate_eq, replace]
      rfl
    · rw [start_eq] at from'
      rw [window] at to'
      exact (taken line).2 (all line ⟨from', to'⟩ content)

/-- After spans that go forward, a span has no mapping exactly when none of its lines is kept or when it
is spent by what these spans own. Otherwise it comes to an origin. -/
theorem annotate_unmapped_iff {differ : Differ} {strategy : Strategy} {source mutated : List Text}
    (checked : strategy = .diff → (differ.script (source.map lineKey)
      (mutated.map lineKey)).isPartition source.length mutated.length = true)
    {earlier : List Interval} {span : Interval}
    (ordered : (earlier ++ [span]).Pairwise fun span later => span.stop ≤ later.start)
    (within : span.stop ≤ mutated.length) :
    let map := RestoreMap.align strategy source mutated differ
    let tracker := (Tracker.ofLines source).align strategy mutated differ
    ∃ owned, List.Forall₂ (Attempt.Owns source) (tracker.attempts earlier) owned ∧
      ((tracker.annotateAll earlier).annotate span = .error (.noMapping span) ↔
        (∀ line ∈ span, ¬map.script.Kept line) ∨ Spent map source owned.reduceOption span) ∧
      ((∃ line ∈ span, map.script.Kept line) → ¬Spent map source owned.reduceOption span →
        ∃ origin annotated,
          (tracker.annotateAll earlier).annotate span = .ok (origin, annotated)) := by
  intro map tracker
  have fills := RestoreMap.fills_align checked
  have untraced : tracker.Untraced source map := Tracker.untraced_align fills.covers
  obtain ⟨owned, traced, -, -, used⟩ := untraced.reached.attempts untraced.index
    (fun _ _ => Nat.zero_le _) (List.pairwise_append.1 ordered).1
  have reached := untraced.reached.annotateAll earlier
  have index : (tracker.annotateAll earlier).index = .build source := by
    obtain ⟨after, same, -⟩ := tracker.exists_annotateAll earlier
    rw [same]
    exact untraced.index
  have unmapped : (tracker.annotateAll earlier).annotate span = .error (.noMapping span) ↔
      (∀ line ∈ span, ¬map.script.Kept line) ∨ Spent map source owned.reduceOption span := by
    rw [reached.annotate_eq_error_iff index (Nat.zero_le _), RestoreMap.locate_eq_error_iff fills,
      or_iff_right (Nat.not_lt.2 within), spent_iff fills (untraced.taken_iff used)]
  refine ⟨owned, traced, unmapped, fun ⟨line, inside, kept⟩ free => ?_⟩
  cases found : (tracker.annotateAll earlier).annotate span with
  | ok made => exact ⟨made.1, made.2, rfl⟩
  | error failure =>
    obtain rfl := reached.annotate_eq_error index (Nat.zero_le _) found
    rcases unmapped.1 found with none | spent
    · exact absurd kept (none line inside)
    · exact absurd spent free

/-- The first span comes to own the one line of the replacement in which the second starts. -/
theorem annotate_unmapped_iff_shared :
    let source : List Text := [['X'], ['b']]
    let mutated : List Text := [['P'], [], ['Q'], ['b']]
    let map := RestoreMap.align .diff source mutated
    let tracker := (Tracker.ofLines source).align .diff mutated
    let earlier : List Interval := [⟨0, 1⟩]
    let span : Interval := ⟨2, 4⟩
    (Differ.shortest.script (source.map lineKey) (mutated.map lineKey)).isPartition 2 4 = true ∧
      (earlier ++ [span]).Pairwise (fun span later => span.stop ≤ later.start) ∧
      ∃ owned, List.Forall₂ (Attempt.Owns source) (tracker.attempts earlier) owned ∧
        Spent map source owned.reduceOption span := by
  intro source mutated map tracker earlier span
  have checked : (Differ.shortest.script (source.map lineKey)
      (mutated.map lineKey)).isPartition 2 4 = true := by
    decide +kernel
  have ordered : (earlier ++ [span]).Pairwise fun span later => span.stop ≤ later.start := by decide
  obtain ⟨owned, traced, unmapped, -⟩ :=
    @annotate_unmapped_iff .shortest .diff source mutated (fun _ => checked) earlier span ordered
      (by decide)
  have lost : (tracker.annotateAll earlier).annotate span = .error (.noMapping span) := by
    decide +kernel
  have kept : map.script.Kept 3 := ⟨⟨.equal, ⟨1, 2⟩, ⟨3, 4⟩⟩, by decide +kernel, by decide⟩
  rcases unmapped.1 lost with none | spent
  · exact absurd kept (none 3 (by decide))
  · exact ⟨checked, ordered, owned, traced, spent⟩

/-- The second span holds an equal line, and has no mapping all the same. -/
theorem annotate_unmapped_equal :
    let source : List Text := [['X'], ['b']]
    let mutated : List Text := [['P'], [], ['Q'], ['b']]
    let tracker := (Tracker.ofLines source).align .diff mutated
    let op : EditOp := ⟨.equal, ⟨1, 2⟩, ⟨3, 4⟩⟩
    (Differ.shortest.script (source.map lineKey) (mutated.map lineKey)).isPartition 2 4 = true ∧
      op ∈ (RestoreMap.align .diff source mutated).script ∧ op.kind = .equal ∧ 3 ∈ op.mutated ∧
      3 ∈ (⟨2, 4⟩ : Interval) ∧
      (tracker.attempts [⟨0, 1⟩, ⟨2, 4⟩]).map (·.result) =
        [.ok ⟨0, 1, false, false⟩, .error (.noMapping ⟨2, 4⟩)] := by
  decide +kernel

end Tracemark.Offsets
