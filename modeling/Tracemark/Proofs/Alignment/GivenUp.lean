import Tracemark.Proofs.Alignment.Translation

/-! Source lines that a location gives up.

A run that stops inside a replacement gives up source lines to the blocks behind it, one break for each
break among the mutated lines that are left. Breaks are counted from where the location starts, which
may lie operations before the replacement. So the run can give up lines that stand before the
replacement, equal lines of its own among them.
-/

set_option autoImplicit false

namespace Tracemark.Alignment

open EditScript (Fills)

/-! Breaks in order. -/

theorem pairwise_blockBreaks {line : Nat} {run : Option Nat} {flags : List Bool}
    (started : ∀ first ∈ run, first < line) :
    (blockBreaks line run flags).Pairwise (· < ·) ∧
      ∀ found ∈ blockBreaks line run flags, found ∈ run ∨ line ≤ found := by
  induction flags generalizing line run with
  | nil => exact ⟨.nil, nofun⟩
  | cons flag rest ih =>
    cases flag with
    | true =>
      have started' : ∀ first ∈ some (run.getD line), first < line + 1 := by
        intro first same
        cases Option.mem_some.1 same
        cases run with
        | none => exact Nat.lt_succ_self line
        | some first => exact Nat.lt_succ_of_lt (started first rfl)
      obtain ⟨sorted, later⟩ := ih started'
      refine ⟨sorted, fun found member => ?_⟩
      rcases later found member with same | beyond
      · cases Option.mem_some.1 same
        cases run with
        | none => exact .inr (Nat.le_refl _)
        | some first => exact .inl rfl
      · exact .inr (Nat.le_of_succ_le beyond)
    | false =>
      have none_started : ∀ first ∈ (none : Option Nat), first < line + 1 := nofun
      obtain ⟨sorted, later⟩ := ih none_started
      have beyond : ∀ found ∈ blockBreaks (line + 1) none rest, line < found :=
        fun found member => (later found member).resolve_left nofun
      cases run with
      | none => exact ⟨sorted, fun found member => .inr (Nat.le_of_lt (beyond found member))⟩
      | some first =>
        refine ⟨sorted.cons fun found member => ?_, fun found member => ?_⟩
        · exact Nat.lt_trans (started first rfl) (beyond found member)
        · rcases List.mem_cons.1 member with rfl | member
          · exact .inl rfl
          · exact .inr (Nat.le_of_lt (beyond found member))

theorem pairwise_breaksIn (blank : List Bool) (lines : Interval) :
    (breaksIn blank lines).Pairwise (· < ·) := by
  have none_started : ∀ first ∈ (none : Option Nat), first < lines.start := nofun
  exact (pairwise_blockBreaks none_started).1

theorem lt_iff_of_getElem? {breaks : List Nat} (sorted : breaks.Pairwise (· < ·)) {place line : Nat}
    (found : breaks[place]? = some line) (bound : Nat) :
    bound < line ↔ breaks.length ≤ place + breaks.countP (bound < ·) := by
  induction breaks generalizing place with
  | nil => cases found
  | cons first rest ih =>
    obtain ⟨least, sorted⟩ := List.pairwise_cons.1 sorted
    cases place with
    | zero =>
      cases found
      by_cases beyond : bound < line
      · have all : rest.countP (bound < ·) = rest.length := by
          rw [List.countP_eq_length]
          intro later member
          exact decide_eq_true (Nat.lt_trans beyond (least later member))
        rw [List.countP_cons, if_pos (decide_eq_true beyond), all, List.length_cons]
        simp [beyond]
      · have few : rest.countP (bound < ·) ≤ rest.length := List.countP_le_length
        rw [List.countP_cons, if_neg (by simpa using beyond), List.length_cons]
        omega
    | succ place =>
      have here := ih sorted found
      have above := least line (List.mem_of_getElem? found)
      by_cases beyond : bound < first
      · rw [List.countP_cons, if_pos (decide_eq_true beyond), List.length_cons]
        omega
      · rw [List.countP_cons, if_neg (by simpa using beyond), List.length_cons]
        omega

namespace RestoreMap

variable {differ : Differ} {map : RestoreMap} {lines : Interval} {location : Location}
  {start stop line place sourceStart sourceEnd mutatedEnd : Nat} {op first last : EditOp}
  {before after : EditScript}

/-- A run that starts at a source line and stops inside a replacement gives up a source line: behind
that line stand fewer breaks than are to be given up, but there are enough behind the start. -/
def GivesUp (map : RestoreMap) (op : EditOp) (sourceStart stop place : Nat) : Prop :=
  let later := (breaksIn map.mutatedBlank ⟨stop, op.mutated.stop⟩).length
  let breaks := breaksIn map.sourceBlank ⟨sourceStart, op.source.stop⟩
  breaks.countP (place < ·) < later ∧ later ≤ breaks.countP (sourceStart < ·)

theorem approximateEnd_le_iff (inside : place < op.source.stop) :
    map.approximateEnd op sourceStart stop ≤ place ↔ map.GivesUp op sourceStart stop place := by
  unfold approximateEnd GivesUp
  generalize breaksIn map.mutatedBlank ⟨stop, op.mutated.stop⟩ = later
  have sorted := pairwise_breaksIn map.sourceBlank ⟨sourceStart, op.source.stop⟩
  generalize breaksIn map.sourceBlank ⟨sourceStart, op.source.stop⟩ = breaks at sorted
  have few : breaks.countP (sourceStart < ·) ≤ breaks.length := List.countP_le_length
  simp only
  split
  · omega
  · next some_later =>
    have found : breaks.length - later.length < breaks.length := by omega
    rw [List.getElem?_eq_getElem found]
    have beyond := lt_iff_of_getElem? sorted (List.getElem?_eq_getElem found)
    have first := beyond sourceStart
    have here := beyond place
    by_cases kept : sourceStart < breaks[breaks.length - later.length]
    · rw [Option.filter_some, if_pos (decide_eq_true kept), Option.getD_some]
      omega
    · rw [Option.filter_some, if_neg (by simpa using kept), Option.getD_none]
      omega

section

variable (fills : Fills map.script ⟨0, sourceEnd⟩ ⟨0, mutatedEnd⟩)

include fills

theorem counterpart_lt (member : op ∈ map.script) (equal : op.kind = .equal)
    (holds : line ∈ op.mutated) : op.counterpart line < op.source.stop := by
  have fit := fills.fits member
  rw [EditOp.fits_iff (fills.forward op member), equal] at fit
  rw [Interval.mem_iff] at holds
  simp only at fit
  unfold EditOp.counterpart
  omega

/-- A run that stops under a replacement ends in front of a source line exactly when it gives that line
up. At the end of the replacement there is nothing to give up. -/
theorem stopUnder_le_iff (member : op ∈ map.script) (replace : op.kind = .replace)
    (inside : place < op.source.stop) :
    map.stopUnder op after sourceStart stop ≤ place ↔ map.GivesUp op sourceStart stop place := by
  rw [stopUnder_eq]
  split
  · next whole =>
    have reach := le_endOfDropped (map.reachUnder op sourceStart stop) after
    rw [whole.2, reachUnder_self fills member] at reach ⊢
    refine iff_of_false (by omega) ?_
    rintro ⟨few, -⟩
    rw [breaksIn_self] at few
    cases few
  · rw [reachUnder, if_neg (by simp [replace])]
    exact approximateEnd_le_iff inside

section

variable (located : Located map lines location start stop first last before after)
  (member : op ∈ map.script) (equal : op.kind = .equal) (holds : line ∈ op.mutated)

include located member equal holds

theorem Located.bounds_of_equal (inside : line ∈ lines) : start ≤ line ∧ line ≤ stop - 1 := by
  have kept : ¬map.script.Injected line := by
    have bound := fills.bounds member
    refine (fills.not_injected_iff ⟨Nat.zero_le _, Nat.lt_of_lt_of_le holds.2 bound.2.2.2⟩).2 ?_
    exact ⟨op, member, EditOp.anchors_iff.2 ⟨.inl equal, holds⟩⟩
  constructor
  · by_contra clipped
    exact kept (located.firstKept.clipped line inside (Nat.lt_of_not_le clipped))
  · by_contra clipped
    exact kept (located.lastKept.clipped line inside (Nat.lt_of_not_le clipped))

theorem Located.start_le_counterpart (reached : start ≤ line) :
    location.source.start ≤ op.counterpart line := by
  obtain ⟨member', anchored⟩ := located.mem_first
  obtain ⟨-, from', to'⟩ := EditOp.anchors_iff.1 anchored
  rw [Interval.mem_iff] at holds
  rcases fills.eq_or_precedes member' member with rfl | ahead | behind
  · have start_eq : location.source.start = startUnder first start := by
      rw [located.source_eq]
    rw [start_eq, startUnder, if_pos equal, EditOp.counterpart]
    omega
  · have inFirst := located.startUnder_lt fills
    have := ahead.source
    unfold EditOp.counterpart
    omega
  · have := behind.mutated
    omega

omit equal in
theorem Located.eq_or_precedes_last (reached : line ≤ stop - 1) : op = last ∨ op.Precedes last := by
  obtain ⟨-, from', to'⟩ := EditOp.anchors_iff.1 located.stops
  rw [Interval.mem_iff] at holds
  rcases fills.eq_or_precedes member located.mem_last with same | ahead | behind
  · exact .inl same
  · exact .inr ahead
  · have := behind.mutated
    omega

theorem Located.counterpart_lt_stop (reached : line ≤ stop - 1) (exact : last.kind = .equal) :
    op.counterpart line < location.source.stop := by
  have inOp := counterpart_lt fills member equal holds
  have reach : map.reachUnder last location.source.start stop ≤ location.source.stop := by
    rw [located.source_eq]
    exact reachUnder_le_stopUnder
  rw [reachUnder, if_pos exact] at reach
  rcases located.eq_or_precedes_last fills member holds reached with rfl | ahead
  · have content := located.start_lt_stop
    rw [Interval.mem_iff] at holds
    unfold EditOp.counterpart
    omega
  · have := ahead.source
    omega

/-- Equal lines of a run are located, unless the run gives them up. -/
theorem Located.counterpart_mem_iff (inside : line ∈ lines) :
    op.counterpart line ∈ location.source ↔
      ¬(last.kind = .replace ∧
        map.GivesUp last location.source.start stop (op.counterpart line)) := by
  obtain ⟨reached, reached'⟩ := located.bounds_of_equal fills member equal holds inside
  rw [Interval.mem_iff,
    and_iff_right (located.start_le_counterpart fills member equal holds reached)]
  rcases (EditOp.anchors_iff.1 located.stops).1 with exact | replace
  · refine iff_of_true ?_ fun both => nomatch exact.symm.trans both.1
    exact located.counterpart_lt_stop fills member equal holds reached' exact
  · have before : op.counterpart line < last.source.stop := by
      have inOp := counterpart_lt fills member equal holds
      rcases located.eq_or_precedes_last fills member holds reached' with rfl | ahead
      · exact inOp
      · have := ahead.source
        have := (fills.forward last located.mem_last).source
        omega
    have stop_eq : location.source.stop = map.stopUnder last after location.source.start stop := by
      rw [located.source_eq]
    rw [and_iff_right replace, ← stopUnder_le_iff fills located.mem_last replace before, stop_eq,
      Nat.not_le]

end

end

/-- A scan forward replaces nothing, so that a run gives up nothing either. -/
theorem sequential_counterpart_mem {source mutated : List Text}
    (found : (align .sequential source mutated differ).locate lines = .ok location)
    (member : op ∈ (align .sequential source mutated differ).script) (equal : op.kind = .equal)
    (inside : line ∈ lines) (holds : line ∈ op.mutated) :
    op.counterpart line ∈ location.source := by
  have fills : Fills (align .sequential source mutated differ).script _ _ := fills_align nofun
  obtain ⟨start, stop, first, last, before, after, located⟩ := locate_eq_ok found
  rw [located.counterpart_mem_iff fills member equal holds inside]
  rintro ⟨replace, -⟩
  obtain ⟨other, listed, same⟩ := EditScript.kind_of_mem_foldr_join located.mem_last
  exact kind_of_mem_bindLines (List.mem_filter.1 listed).1 (same.trans replace)

/-- An equal line of a run that is located has its counterpart outside the location exactly when the
run ends in a replacement and gives that source line up. -/
theorem align_gives_up_iff {strategy : Strategy} {source mutated : List Text}
    (checked : strategy = .diff → (differ.script (source.map lineKey)
      (mutated.map lineKey)).isPartition source.length mutated.length = true)
    (found : (align strategy source mutated differ).locate lines = .ok location)
    (member : op ∈ (align strategy source mutated differ).script) (equal : op.kind = .equal)
    (inside : line ∈ lines) (holds : line ∈ op.mutated) :
    op.counterpart line ∉ location.source ↔
      ∃ last, (align strategy source mutated differ).script.LastKept lines last ∧
        ∃ closing ∈ (align strategy source mutated differ).script, closing.kind = .replace ∧
          last ∈ closing.mutated ∧ (align strategy source mutated differ).GivesUp closing
            location.source.start (last + 1) (op.counterpart line) := by
  have fills := fills_align checked
  obtain ⟨start, stop, first, last, before, after, located⟩ := locate_eq_ok found
  have some_line := Nat.sub_add_cancel (Nat.one_le_of_lt located.start_lt_stop)
  rw [located.counterpart_mem_iff fills member equal holds inside, not_not]
  have stops := (EditOp.anchors_iff.1 located.stops).2
  constructor
  · rintro ⟨replace, given⟩
    exact ⟨stop - 1, located.lastKept, last, located.mem_last, replace, stops, some_line ▸ given⟩
  · rintro ⟨line', lastKept, closing, listed, replace, holds', given⟩
    obtain rfl := lastKept.eq located.lastKept
    obtain rfl := fills.eq_of_mem listed located.mem_last holds' stops
    exact ⟨replace, some_line ▸ given⟩

/-- The one break of the source stands among dropped lines, and the equal lines behind it are lost. -/
theorem align_gives_up_iff_dropped :
    let source : List Text := [['a'], [], ['d'], ['b'], ['c'], ['X']]
    let mutated : List Text := [['a'], ['b'], ['c'], ['P'], [], ['Q']]
    let map := align .diff source mutated
    let op : EditOp := ⟨.equal, ⟨3, 5⟩, ⟨1, 3⟩⟩
    let location : Location := ⟨⟨0, 1⟩, true, false, ⟨0, 1⟩⟩
    (Differ.shortest.script (source.map lineKey) (mutated.map lineKey)).isPartition 6 6 = true ∧
      map.locate ⟨0, 4⟩ = .ok location ∧ op ∈ map.script ∧ op.kind = .equal ∧
      1 ∈ (⟨0, 4⟩ : Interval) ∧ 1 ∈ op.mutated ∧ op.counterpart 1 = 3 ∧
      op.counterpart 1 ∉ location.source ∧
      ∃ last, map.script.LastKept ⟨0, 4⟩ last ∧ ∃ closing ∈ map.script, closing.kind = .replace ∧
        last ∈ closing.mutated ∧
        map.GivesUp closing location.source.start (last + 1) (op.counterpart 1) := by
  intro source mutated map op location
  have checked : (Differ.shortest.script (source.map lineKey)
      (mutated.map lineKey)).isPartition 6 6 = true := by
    decide +kernel
  have found : map.locate ⟨0, 4⟩ = .ok location := by decide +kernel
  have member : op ∈ map.script := by decide +kernel
  have outside : op.counterpart 1 ∉ location.source := by decide
  have given := (align_gives_up_iff (fun _ => checked) found member rfl (by decide) (by decide)).1
    outside
  exact ⟨checked, found, member, rfl, by decide, by decide, rfl, outside, given⟩

end RestoreMap

end Tracemark.Alignment
