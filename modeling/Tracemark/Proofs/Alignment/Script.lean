import Tracemark.Alignment.Differ

/-! Scripts that fill two runs of lines in order.

The check of a script compares where operations start and stop, and takes a reversed side for an empty
one. A script whose operations run forward and that passes the check lists its operations in order on
both sides, so each line of a side stands in one operation.
-/

set_option autoImplicit false

namespace Tracemark.Alignment

namespace EditOp

structure Precedes (op later : EditOp) : Prop where
  source : op.source.stop ≤ later.source.start
  mutated : op.mutated.stop ≤ later.mutated.start

variable {op later : EditOp}

theorem fits_iff (forward : op.Forward) : op.fits = true ↔
    match op.kind with
    | .equal => op.source.stop + op.mutated.start = op.mutated.stop + op.source.start ∧
        op.source.start < op.source.stop
    | .replace => op.source.start < op.source.stop ∧ op.mutated.start < op.mutated.stop
    | .delete => op.source.stop = op.source.start ∧ op.mutated.start < op.mutated.stop
    | .insert => op.source.start < op.source.stop ∧ op.mutated.stop = op.mutated.start := by
  obtain ⟨source, mutated⟩ := forward
  unfold fits Interval.isEmpty Interval.length
  cases op.kind with
  | equal | replace | delete | insert =>
    simp only [Bool.and_eq_true, decide_eq_true_eq, Bool.not_eq_true', decide_eq_false_iff_not]
    omega

theorem anchors_iff {line : Nat} : op.anchors line = true ↔
    (op.kind = .equal ∨ op.kind = .replace) ∧ op.mutated.start ≤ line ∧ line < op.mutated.stop := by
  simp [anchors]

-- A side with as many lines as a side that is not empty is not reversed either.
theorem forward_of_fits (fit : op.fits = true) (anchor : op.kind = .equal ∨ op.kind = .replace) :
    op.Forward := by
  unfold fits Interval.isEmpty Interval.length at fit
  rcases anchor with kind | kind
  · simp only [kind, Bool.and_eq_true, decide_eq_true_eq, Bool.not_eq_true', decide_eq_false_iff_not]
      at fit
    exact ⟨by omega, by omega⟩
  · simp only [kind, Bool.and_eq_true, Bool.not_eq_true', decide_eq_false_iff_not] at fit
    exact ⟨by omega, by omega⟩

end EditOp

namespace EditScript

theorem fits_of_covers {script : EditScript} {op : EditOp} {source mutated sourceEnd mutatedEnd : Nat}
    (covered : script.covers source mutated sourceEnd mutatedEnd = true) (member : op ∈ script) :
    op.fits = true := by
  induction script generalizing source mutated with
  | nil => cases member
  | cons first rest ih =>
    simp only [covers, Bool.and_eq_true] at covered
    rcases List.mem_cons.1 member with rfl | later
    · exact covered.1.2
    · exact ih covered.2 later

/-- A script fills a run of source lines and a run of mutated lines. -/
structure Fills (script : EditScript) (source mutated : Interval) : Prop where
  covers : script.covers source.start mutated.start source.stop mutated.stop = true
  forward : ∀ op ∈ script, op.Forward

variable {script first second rest : EditScript} {op : EditOp} {source mutated : Interval}

theorem fills_nil_iff :
    Fills [] source mutated ↔ source.start = source.stop ∧ mutated.start = mutated.stop := by
  constructor
  · rintro ⟨covered, -⟩
    simpa [covers] using covered
  · intro bounds
    exact ⟨by simpa [covers] using bounds, by simp⟩

theorem fills_cons_iff : Fills (op :: rest) source mutated ↔
    op.source.start = source.start ∧ op.mutated.start = mutated.start ∧ op.Forward ∧
      op.fits = true ∧ Fills rest ⟨op.source.stop, source.stop⟩ ⟨op.mutated.stop, mutated.stop⟩ := by
  constructor
  · rintro ⟨covered, forward⟩
    rw [List.forall_mem_cons] at forward
    simp only [covers, Bool.and_eq_true, decide_eq_true_eq] at covered
    obtain ⟨⟨⟨start, start'⟩, fit⟩, covered⟩ := covered
    exact ⟨start, start', forward.1, fit, covered, forward.2⟩
  · rintro ⟨start, start', forward, fit, covered, later⟩
    refine ⟨?_, List.forall_mem_cons.2 ⟨forward, later⟩⟩
    simp only [covers, Bool.and_eq_true, decide_eq_true_eq]
    exact ⟨⟨⟨start, start'⟩, fit⟩, covered⟩

theorem fills_append_iff : Fills (first ++ second) source mutated ↔
    ∃ line line', Fills first ⟨source.start, line⟩ ⟨mutated.start, line'⟩ ∧
      Fills second ⟨line, source.stop⟩ ⟨line', mutated.stop⟩ := by
  induction first generalizing source mutated with
  | nil =>
    constructor
    · intro fills
      exact ⟨source.start, mutated.start, fills_nil_iff.2 ⟨rfl, rfl⟩, fills⟩
    · rintro ⟨line, line', none, fills⟩
      obtain ⟨same, same'⟩ := fills_nil_iff.1 none
      simp only at same same'
      subst same same'
      exact fills
  | cons op rest ih =>
    rw [List.cons_append, fills_cons_iff, ih]
    constructor
    · rintro ⟨start, start', forward, fit, line, line', front, back⟩
      exact ⟨line, line', fills_cons_iff.2 ⟨start, start', forward, fit, front⟩, back⟩
    · rintro ⟨line, line', front, back⟩
      obtain ⟨start, start', forward, fit, front⟩ := fills_cons_iff.1 front
      exact ⟨start, start', forward, fit, line, line', front, back⟩

theorem Fills.le (fills : Fills script source mutated) :
    source.start ≤ source.stop ∧ mutated.start ≤ mutated.stop := by
  induction script generalizing source mutated with
  | nil =>
    obtain ⟨same, same'⟩ := fills_nil_iff.1 fills
    exact ⟨Nat.le_of_eq same, Nat.le_of_eq same'⟩
  | cons op rest ih =>
    obtain ⟨start, start', forward, -, fills⟩ := fills_cons_iff.1 fills
    obtain ⟨le, le'⟩ := ih fills
    exact ⟨start ▸ Nat.le_trans forward.source le, start' ▸ Nat.le_trans forward.mutated le'⟩

theorem Fills.bounds (fills : Fills script source mutated) (member : op ∈ script) :
    source.start ≤ op.source.start ∧ op.source.stop ≤ source.stop ∧
      mutated.start ≤ op.mutated.start ∧ op.mutated.stop ≤ mutated.stop := by
  obtain ⟨before, after, rfl⟩ := List.append_of_mem member
  obtain ⟨line, line', front, back⟩ := fills_append_iff.1 fills
  obtain ⟨start, start', -, -, later⟩ := fills_cons_iff.1 back
  simp only at start start'
  subst start start'
  exact ⟨front.le.1, later.le.1, front.le.2, later.le.2⟩

theorem Fills.fits (fills : Fills script source mutated) (member : op ∈ script) :
    op.fits = true := by
  obtain ⟨before, after, rfl⟩ := List.append_of_mem member
  obtain ⟨line, line', -, back⟩ := fills_append_iff.1 fills
  exact (fills_cons_iff.1 back).2.2.2.1

theorem Fills.pairwise (fills : Fills script source mutated) :
    script.Pairwise EditOp.Precedes := by
  induction script generalizing source mutated with
  | nil => exact .nil
  | cons op rest ih =>
    obtain ⟨-, -, -, -, fills⟩ := fills_cons_iff.1 fills
    apply List.Pairwise.cons _ (ih fills)
    intro later member
    obtain ⟨source, -, mutated, -⟩ := fills.bounds member
    exact ⟨source, mutated⟩

theorem Fills.precedes {before after : EditScript}
    (fills : Fills (before ++ op :: after) source mutated) :
    (∀ other ∈ before, other.Precedes op) ∧ ∀ other ∈ after, op.Precedes other := by
  have sorted := List.pairwise_append.1 fills.pairwise
  exact ⟨fun other member => sorted.2.2 other member op List.mem_cons_self,
    (List.pairwise_cons.1 sorted.2.1).1⟩

end EditScript

theorem Differ.fills {differ : Differ} {source mutated : List Text}
    (checked : (differ.script source mutated).isPartition source.length mutated.length = true) :
    (differ.script source mutated).Fills ⟨0, source.length⟩ ⟨0, mutated.length⟩ :=
  ⟨checked, differ.forward source mutated⟩

end Tracemark.Alignment
