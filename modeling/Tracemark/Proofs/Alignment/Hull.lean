import Tracemark.Proofs.Alignment.Binding
import Tracemark.Proofs.Alignment.GivenUp

/-! Scripts without rewritten or dropped lines.

Such a script holds equal lines and injected ones only. A run of mutated lines is then located exactly: it
comes from the source lines between the first and the last that its own lines are bound to, whether or not
dropped lines are folded in.
-/

set_option autoImplicit false

namespace Tracemark.Alignment

open EditScript (Fills)

/-- The shortest run around some places, of which there is at least one. -/
structure Hull (place : Nat → Prop) (run : Interval) : Prop where
  first : place run.start
  last : place (run.stop - 1)
  inside : ∀ line, place line → line ∈ run

theorem Hull.congr {place place' : Nat → Prop} {run : Interval} (hull : Hull place run)
    (same : ∀ line, place line ↔ place' line) : Hull place' run :=
  ⟨(same _).1 hull.first, (same _).1 hull.last, fun line here => hull.inside line ((same _).2 here)⟩

namespace EditScript

def Exact (script : EditScript) : Prop := ∀ op ∈ script, op.kind = .equal ∨ op.kind = .delete

variable {script : EditScript} {op : EditOp} {line : Nat}

theorem Exact.equal (exact : script.Exact) (member : op ∈ script)
    (anchored : op.anchors line = true) : op.kind = .equal := by
  rcases exact op member with equal | deleted
  · exact equal
  · have kind := (EditOp.anchors_iff.1 anchored).1
    rw [deleted] at kind
    rcases kind with other | other <;> cases other

theorem Exact.kept_iff (exact : script.Exact) :
    script.Kept line ↔ ∃ place, script.Binds line place := by
  constructor
  · rintro ⟨op, member, anchored⟩
    exact ⟨_, op, member, exact.equal member anchored, (EditOp.anchors_iff.1 anchored).2, rfl⟩
  · rintro ⟨_, op, member, equal, holds, -⟩
    exact ⟨op, member, EditOp.anchors_iff.2 ⟨.inl equal, holds⟩⟩

end EditScript

namespace RestoreMap

variable {map : RestoreMap} {lines mutated : Interval} {stop sourceEnd mutatedEnd : Nat}
  {after : EditScript}

-- Nothing is dropped, so there is nothing to fold in.
theorem nextKept_of_exact (fills : Fills after ⟨stop, sourceEnd⟩ mutated) (exact : after.Exact) :
    after.nextKept sourceEnd = stop := by
  have none : (after.takeWhile fun op => op.kind = .insert || op.kind = .delete).filter
      (·.kind = .insert) = [] := by
    rw [List.filter_eq_nil_iff]
    intro op taken inserted
    have kind := exact op ((List.takeWhile_sublist _).subset taken)
    rw [of_decide_eq_true inserted] at kind
    rcases kind with other | other <;> cases other
  rw [← endOfDropped_eq fills, endOfDropped, none, List.foldl_nil]

theorem exists_locate_of_exact (fills : Fills map.script ⟨0, sourceEnd⟩ ⟨0, mutatedEnd⟩)
    (exact : map.script.Exact) (within : lines.stop ≤ mutatedEnd)
    (bound : ∃ line ∈ lines, ∃ place, map.script.Binds line place) :
    ∃ location, map.locate lines = .ok location ∧
      Hull (fun place => ∃ line ∈ lines, map.script.Binds line place) location.source ∧
      location.startAccurate = true ∧ location.endAccurate = true := by
  have kept : ∃ line ∈ lines, map.script.Kept line := by
    simpa only [exact.kept_iff] using bound
  obtain ⟨location, first, last, before, after, found, located⟩ := exists_located fills within kept
  have translates := located.translates fills
  have equal := exact.equal located.mem_first.1 located.mem_first.2
  have equal' := exact.equal located.mem_last located.stops
  obtain ⟨-, holds⟩ := EditOp.anchors_iff.1 located.mem_first.2
  obtain ⟨-, holds'⟩ := EditOp.anchors_iff.1 located.stops
  -- The end is the counterpart of the last line, folded or not.
  have stop_eq : location.source.stop = last.counterpart ((map.script.clip lines).stop - 1) + 1 := by
    by_cases folded : map.foldContinuations = true ∧
        (map.script.clip lines).stop - 1 + 1 = last.mutated.stop
    · rw [translates.foldedEnd folded.1 folded.2]
      have parted := fills
      rw [located.script_eq] at parted
      obtain ⟨_, _, -, parted⟩ := EditScript.fills_append_iff.1 parted
      obtain ⟨-, -, forward, fit, later⟩ := EditScript.fills_cons_iff.1 parted
      rw [nextKept_of_exact later fun op member => exact op (by rw [located.script_eq]; simp [member])]
      rw [EditOp.fits_iff forward, equal'] at fit
      simp only [EditOp.counterpart] at fit ⊢
      omega
    · exact translates.exactEnd folded equal'
  refine ⟨location, found, ⟨?first, ?last, ?inside⟩, translates.startAccurate.2 equal,
    translates.endAccurate.2 equal'⟩
  case first =>
    exact ⟨_, located.firstKept.mem, first, located.mem_first.1, equal, holds,
      (translates.exactStart equal).1.symm⟩
  case last =>
    rw [stop_eq, Nat.add_sub_cancel]
    exact ⟨_, located.lastKept.mem, last, located.mem_last, equal', holds', rfl⟩
  case inside =>
    rintro _ ⟨line, inside, op, member, kind, holds, rfl⟩
    rw [located.counterpart_mem_iff fills member kind holds inside]
    rintro ⟨replace, -⟩
    cases equal'.symm.trans replace

end RestoreMap

end Tracemark.Alignment
