import Tracemark.Proofs.Alignment.Clipping

/-! What a location says.

A run of mutated lines is located exactly when it ends within the mutated lines and has a line that is
kept. The location starts at what stands for the first line that was not injected, and stops behind
what stands for the last. Where dropped lines are folded in, a run that takes an operation to its end
goes on to the next kept lines.
-/

set_option autoImplicit false

namespace Tracemark.Alignment

open EditScript (Fills)

def EditOp.counterpart (op : EditOp) (line : Nat) : Nat :=
  op.source.start + (line - op.mutated.start)

/-- The source line at which the next kept lines start, or else the end of the source. -/
def EditScript.nextKept (script : EditScript) (sourceEnd : Nat) : Nat :=
  let next := script.find? fun op => op.kind = .equal || op.kind = .replace
  (next.map (·.source.start)).getD sourceEnd

namespace RestoreMap

variable {map : RestoreMap} {lines mutated : Interval} {location : Location}
  {start stop sourceStart sourceEnd mutatedEnd : Nat} {op first last : EditOp}
  {before after rest : EditScript}

/-! The end of dropped lines. -/

theorem endOfDropped_cons_insert (inserted : op.kind = .insert) :
    endOfDropped stop (op :: rest) = endOfDropped (max stop op.source.stop) rest := by
  simp [endOfDropped, inserted]

theorem endOfDropped_cons_delete (deleted : op.kind = .delete) :
    endOfDropped stop (op :: rest) = endOfDropped stop rest := by
  simp [endOfDropped, deleted]

theorem endOfDropped_cons_kept (kept : op.kind = .equal ∨ op.kind = .replace) :
    endOfDropped stop (op :: rest) = stop := by
  rcases kept with kept | kept <;> simp [endOfDropped, kept]

theorem le_endOfDropped (stop : Nat) (after : EditScript) : stop ≤ endOfDropped stop after := by
  induction after generalizing stop with
  | nil => exact Nat.le_refl _
  | cons op rest ih =>
    cases kind : op.kind with
    | equal => rw [endOfDropped_cons_kept (.inl kind)]
    | replace => rw [endOfDropped_cons_kept (.inr kind)]
    | delete =>
      rw [endOfDropped_cons_delete kind]
      exact ih stop
    | insert =>
      rw [endOfDropped_cons_insert kind]
      exact Nat.le_trans (Nat.le_max_left _ _) (ih _)

theorem endOfDropped_eq (fills : Fills after ⟨stop, sourceEnd⟩ mutated) :
    endOfDropped stop after = after.nextKept sourceEnd := by
  induction after generalizing stop mutated with
  | nil => exact (EditScript.fills_nil_iff.1 fills).1
  | cons op rest ih =>
    obtain ⟨starts, -, forward, fit, fills⟩ := EditScript.fills_cons_iff.1 fills
    rw [EditOp.fits_iff forward] at fit
    cases kind : op.kind with
    | equal =>
      rw [endOfDropped_cons_kept (.inl kind)]
      simpa [EditScript.nextKept, kind] using starts.symm
    | replace =>
      rw [endOfDropped_cons_kept (.inr kind)]
      simpa [EditScript.nextKept, kind] using starts.symm
    | delete =>
      rw [kind] at fit
      rw [fit.1, starts] at fills
      rw [endOfDropped_cons_delete kind, ih fills]
      simp [EditScript.nextKept, kind]
    | insert =>
      have further : max stop op.source.stop = op.source.stop :=
        Nat.max_eq_right (Nat.le_trans (Nat.le_of_eq starts.symm) forward.source)
      rw [endOfDropped_cons_insert kind, further, ih fills]
      simp [EditScript.nextKept, kind]

/-! The end of a run. -/

theorem breaksIn_self (blank : List Bool) (line : Nat) : breaksIn blank ⟨line, line⟩ = [] := by
  unfold breaksIn Interval.slice? Interval.length
  split <;> simp [blockBreaks]

theorem approximateEnd_self (map : RestoreMap) (op : EditOp) (sourceStart : Nat) :
    map.approximateEnd op sourceStart op.mutated.stop = op.source.stop := by
  simp [approximateEnd, breaksIn_self]

theorem lt_approximateEnd (map : RestoreMap) (stop : Nat) (content : sourceStart < op.source.stop) :
    sourceStart < map.approximateEnd op sourceStart stop := by
  unfold approximateEnd
  simp only
  split
  · exact content
  · generalize found : Option.filter _ _ = place
    cases place with
    | none => exact content
    | some line => exact of_decide_eq_true (Option.filter_eq_some_iff.1 found).2

def reachUnder (map : RestoreMap) (op : EditOp) (sourceStart stop : Nat) : Nat :=
  if op.kind = .equal then op.source.start + (stop - op.mutated.start)
  else map.approximateEnd op sourceStart stop

theorem stopUnder_eq : map.stopUnder op after sourceStart stop =
    if map.foldContinuations ∧ stop = op.mutated.stop then
      endOfDropped (map.reachUnder op sourceStart stop) after
    else map.reachUnder op sourceStart stop :=
  rfl

theorem reachUnder_le_stopUnder :
    map.reachUnder op sourceStart stop ≤ map.stopUnder op after sourceStart stop := by
  rw [stopUnder_eq]
  split
  · exact le_endOfDropped _ _
  · exact Nat.le_refl _

section

variable (fills : Fills map.script ⟨0, sourceEnd⟩ ⟨0, mutatedEnd⟩)

include fills

theorem reachUnder_self (member : op ∈ map.script) :
    map.reachUnder op sourceStart op.mutated.stop = op.source.stop := by
  unfold reachUnder
  split
  · next equal =>
    have fit := fills.fits member
    rw [EditOp.fits_iff (fills.forward op member), equal] at fit
    have forward := fills.forward op member
    have mutated := forward.mutated
    simp only at fit
    omega
  · exact approximateEnd_self _ _ _

theorem startUnder_lt_reachUnder (member : first ∈ map.script) (member' : last ∈ map.script)
    (starts : first.anchors start = true) (stops : last.anchors (stop - 1) = true)
    (content : start < stop) :
    startUnder first start < map.reachUnder last (startUnder first start) stop := by
  have inFirst := startUnder_lt fills member starts
  obtain ⟨-, from', -⟩ := EditOp.anchors_iff.1 starts
  obtain ⟨-, from'', to'⟩ := EditOp.anchors_iff.1 stops
  unfold reachUnder
  rcases fills.eq_or_precedes member member' with rfl | ahead | behind
  · split
    · next equal =>
      rw [startUnder, if_pos equal]
      omega
    · exact lt_approximateEnd _ _ inFirst
  · have source := ahead.source
    split
    · omega
    · have source' := (fills.forward last member').source
      exact lt_approximateEnd _ _ (by omega)
  · have := behind.mutated
    omega

/-! Which runs are located. -/

omit fills in
theorem exists_locate_eq_ok
    (content : (map.script.clip lines).start < (map.script.clip lines).stop)
    (starts : map.script.find? (·.anchors (map.script.clip lines).start) = some first)
    (stops : map.script.dropWhile (!·.anchors ((map.script.clip lines).stop - 1)) = last :: after)
    (reaches : startUnder first (map.script.clip lines).start <
      map.stopUnder last after (startUnder first (map.script.clip lines).start)
        (map.script.clip lines).stop) : ∃ location, map.locate lines = .ok location := by
  unfold EditScript.clip at content starts stops reaches
  dsimp only at content starts stops reaches
  unfold locate
  simp only [Nat.not_le.2 content, starts, stops, if_false, bind, Except.bind, pure, Except.pure]
  rw [if_neg (by exact Nat.not_le.2 reaches)]
  exact ⟨_, rfl⟩

theorem exists_located (within : lines.stop ≤ mutatedEnd)
    (kept : ∃ line ∈ lines, map.script.Kept line) :
    ∃ location first last before after, map.locate lines = .ok location ∧
      Located map lines location (map.script.clip lines).start (map.script.clip lines).stop
        first last before after := by
  have bound {line : Nat} (inside : line ∈ lines) : line ∈ (⟨0, mutatedEnd⟩ : Interval) :=
    ⟨Nat.zero_le _, Nat.lt_of_lt_of_le inside.2 within⟩
  have content : (map.script.clip lines).start < (map.script.clip lines).stop := by
    by_contra none
    obtain ⟨line, inside, kept⟩ := kept
    have injected := EditScript.clip_empty_iff.1 (Nat.le_of_not_lt none) line inside
    exact (fills.not_injected_iff (bound inside)).2 kept injected
  have firstKept := EditScript.firstKept_clip content
  have lastKept := EditScript.lastKept_clip content
  have anchored := (fills.not_injected_iff (bound firstKept.mem)).1 firstKept.kept
  have anchored' := (fills.not_injected_iff (bound lastKept.mem)).1 lastKept.kept
  obtain ⟨first, starts⟩ := Option.isSome_iff_exists.1 (List.find?_isSome.2 anchored)
  obtain ⟨last, after, stops, member, closes⟩ := EditScript.exists_dropWhile_eq anchored'
  have opens := List.find?_some starts
  have reaches := startUnder_lt_reachUnder fills (List.mem_of_find?_eq_some starts) member opens
    closes content
  obtain ⟨location, found⟩ := exists_locate_eq_ok content starts stops
    (Nat.lt_of_lt_of_le reaches reachUnder_le_stopUnder)
  obtain ⟨start, stop, first, last, before, after, located⟩ := locate_eq_ok found
  obtain rfl := located.start_eq
  obtain rfl := located.stop_eq
  exact ⟨location, first, last, before, after, found, located⟩

theorem Located.exists_kept
    (located : Located map lines location start stop first last before after) :
    lines.stop ≤ mutatedEnd ∧ ∃ line ∈ lines, map.script.Kept line := by
  refine ⟨?_, start, located.firstKept.mem, first, located.mem_first⟩
  by_contra beyond
  obtain ⟨-, -, to'⟩ := EditOp.anchors_iff.1 located.stops
  have inside : last.mutated.stop ≤ mutatedEnd := (fills.bounds located.mem_last).2.2.2
  -- The line behind the last mutated line would have been clipped off.
  have member : mutatedEnd ∈ lines := by
    have first := located.lastKept.mem.1
    rw [Interval.mem_iff]
    omega
  obtain ⟨op, listed, -, -, past⟩ := located.lastKept.clipped mutatedEnd member (by omega)
  exact Nat.not_lt.2 (fills.bounds listed).2.2.2 past

theorem locate_eq_error_iff : map.locate lines = .error (.noMapping lines) ↔
    mutatedEnd < lines.stop ∨ ∀ line ∈ lines, ¬map.script.Kept line := by
  have kept_iff : (∃ location, map.locate lines = .ok location) ↔
      lines.stop ≤ mutatedEnd ∧ ∃ line ∈ lines, map.script.Kept line := by
    constructor
    · rintro ⟨location, found⟩
      obtain ⟨start, stop, first, last, before, after, located⟩ := locate_eq_ok found
      exact located.exists_kept fills
    · rintro ⟨within, kept⟩
      obtain ⟨location, first, last, before, after, found, -⟩ := exists_located fills within kept
      exact ⟨location, found⟩
  rw [← not_iff_not, not_or, Nat.not_lt]
  push Not
  rw [← kept_iff]
  cases found : map.locate lines with
  | ok location => exact iff_of_true nofun ⟨location, rfl⟩
  | error failure =>
    obtain rfl := locate_eq_error found
    simp

end

/-- What a location says of a run of lines that starts, injected lines left out, with line `start` under
one operation, and ends with line `last` under another. -/
structure Translates (map : RestoreMap) (sourceEnd : Nat) (lines : Interval) (location : Location)
    (start last : Nat) (opening closing : EditOp) (after : EditScript) : Prop where
  firstKept : map.script.FirstKept lines start
  lastKept : map.script.LastKept lines last
  opens : opening ∈ map.script ∧ opening.anchors start = true
  closes : closing.anchors last = true
  behind : ∃ before, map.script = before ++ closing :: after
  content : location.source.start < location.source.stop
  within : location.source.stop ≤ sourceEnd
  startAccurate : location.startAccurate = true ↔ opening.kind = .equal
  exactStart : opening.kind = .equal → location.source.start = opening.counterpart start ∧
    location.startWindow = ⟨opening.counterpart start, opening.counterpart start + 1⟩
  nearStart : opening.kind = .replace →
    location.source.start = opening.source.start ∧ location.startWindow = opening.source
  endAccurate : location.endAccurate = true ↔ closing.kind = .equal
  foldedEnd : map.foldContinuations = true → last + 1 = closing.mutated.stop →
    location.source.stop = after.nextKept sourceEnd
  exactEnd : ¬(map.foldContinuations = true ∧ last + 1 = closing.mutated.stop) →
    closing.kind = .equal → location.source.stop = closing.counterpart last + 1
  nearEnd : ¬(map.foldContinuations = true ∧ last + 1 = closing.mutated.stop) →
    closing.kind = .replace → location.source.stop ≤ closing.source.stop

section

variable (fills : Fills map.script ⟨0, sourceEnd⟩ ⟨0, mutatedEnd⟩)

include fills

theorem Located.translates
    (located : Located map lines location start stop first last before after) :
    Translates map sourceEnd lines location start (stop - 1) first last after := by
  have some_line := Nat.sub_add_cancel (Nat.one_le_of_lt located.start_lt_stop)
  have stop_eq : location.source.stop = map.stopUnder last after (startUnder first start) stop := by
    rw [located.source_eq]
  have start_eq : location.source.start = startUnder first start := by
    rw [located.source_eq]
  have window := located.startWindow_eq
  refine ⟨located.firstKept, located.lastKept, located.mem_first, located.stops,
    ⟨before, located.script_eq⟩, located.content, located.source_stop_le fills, ?startAccurate,
    ?exactStart, ?nearStart, ?endAccurate, ?foldedEnd, ?exactEnd, ?nearEnd⟩
  case startAccurate => rw [located.startAccurate_eq, decide_eq_true_iff]
  case endAccurate => rw [located.endAccurate_eq, decide_eq_true_iff]
  case exactStart =>
    intro equal
    rw [if_pos equal] at window
    rw [start_eq, window]
    simp [startUnder, equal, EditOp.counterpart]
  case nearStart =>
    intro replace
    rw [start_eq, window]
    simp [startUnder, replace]
  case foldedEnd =>
    intro fold whole
    rw [some_line] at whole
    have later : Fills after ⟨last.source.stop, sourceEnd⟩ ⟨last.mutated.stop, mutatedEnd⟩ := by
      rw [located.script_eq] at fills
      obtain ⟨_, _, -, parted⟩ := EditScript.fills_append_iff.1 fills
      exact (EditScript.fills_cons_iff.1 parted).2.2.2.2
    rw [stop_eq, stopUnder_eq, if_pos ⟨fold, whole⟩, whole, reachUnder_self fills located.mem_last]
    exact endOfDropped_eq later
  case exactEnd =>
    intro short equal
    rw [some_line] at short
    obtain ⟨-, from', -⟩ := EditOp.anchors_iff.1 located.stops
    rw [stop_eq, stopUnder_eq, if_neg short, reachUnder, if_pos equal, EditOp.counterpart]
    omega
  case nearEnd =>
    intro short replace
    rw [some_line] at short
    rw [stop_eq, stopUnder_eq, if_neg short, reachUnder, if_neg (by simp [replace])]
    exact approximateEnd_le _ _ _ _

end

/-- A run of mutated lines has no mapping exactly when it ends beyond the mutated lines or none of its
lines is kept. A run that has one is located by its first and its last line that were not injected: an
edge in equal lines at its counterpart, and an edge in a replacement within the lines of that. The
check of scripts alone passes an empty side that steps back, which no alignment writes. -/
theorem locate_sound_complete {sourceLength mutatedLength : Nat}
    (partition : map.script.isPartition sourceLength mutatedLength = true)
    (forward : ∀ op ∈ map.script, op.Forward) (lines : Interval) :
    (map.locate lines = .error (.noMapping lines) ↔
      mutatedLength < lines.stop ∨ ∀ line ∈ lines, ¬map.script.Kept line) ∧
      ((lines.stop ≤ mutatedLength ∧ ∃ line ∈ lines, map.script.Kept line) →
        ∃ location start last opening closing after, map.locate lines = .ok location ∧
          Translates map sourceLength lines location start last opening closing after) := by
  have fills : Fills map.script ⟨0, sourceLength⟩ ⟨0, mutatedLength⟩ := ⟨partition, forward⟩
  refine ⟨locate_eq_error_iff fills, ?_⟩
  rintro ⟨within, kept⟩
  obtain ⟨location, first, last, before, after, found, located⟩ := exists_located fills within kept
  exact ⟨location, _, _, first, last, after, found, located.translates fills⟩

theorem locate_sound_complete_folded :
    let script : EditScript :=
      [⟨.equal, ⟨0, 1⟩, ⟨0, 1⟩⟩, ⟨.insert, ⟨1, 2⟩, ⟨1, 1⟩⟩, ⟨.delete, ⟨2, 2⟩, ⟨1, 2⟩⟩,
        ⟨.equal, ⟨2, 3⟩, ⟨2, 3⟩⟩]
    let map : RestoreMap := ⟨script, true, [false, false, false], [false, false, false]⟩
    script.isPartition 3 3 = true ∧ (∀ op ∈ script, op.Forward) ∧
      (∃ line ∈ (⟨0, 2⟩ : Interval), script.Kept line) ∧
      ∃ location start last opening closing after, map.locate ⟨0, 2⟩ = .ok location ∧
        location.source = ⟨0, 2⟩ ∧
        Translates map 3 ⟨0, 2⟩ location start last opening closing after := by
  intro script map
  have partition : script.isPartition 3 3 = true := by decide
  have forward : ∀ op ∈ script, op.Forward := by
    simp only [script, List.forall_mem_cons]
    exact ⟨⟨by decide, by decide⟩, ⟨by decide, by decide⟩, ⟨by decide, by decide⟩,
      ⟨by decide, by decide⟩, by simp⟩
  have kept : ∃ line ∈ (⟨0, 2⟩ : Interval), script.Kept line :=
    ⟨0, by decide, ⟨.equal, ⟨0, 1⟩, ⟨0, 1⟩⟩, by simp [script], by decide⟩
  obtain ⟨location, start, last, opening, closing, after, found, translates⟩ :=
    (@locate_sound_complete map 3 3 partition forward ⟨0, 2⟩).2 ⟨by decide, kept⟩
  have found' : map.locate ⟨0, 2⟩ = .ok ⟨⟨0, 2⟩, true, true, ⟨0, 1⟩⟩ := by decide
  cases found.symm.trans found'
  exact ⟨partition, forward, kept, _, start, last, opening, closing, after, found, rfl, translates⟩

end RestoreMap

end Tracemark.Alignment
