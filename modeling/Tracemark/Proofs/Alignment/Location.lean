import Mathlib.Data.List.TakeWhile
import Tracemark.Alignment.RestoreMap
import Tracemark.Proofs.Alignment.BlankAnchor
import Tracemark.Proofs.Alignment.Sequential

/-! Where a run of mutated lines is located.

A run starts under one operation of the script and stops under the same or a later one. Runs that
come later on the mutated side start no earlier on the source side, but within a replacement they may
start at the same line again. `Passed` tells which source lines are behind: later mutated lines are
traced to lines after them, or to a replacement in which they are all taken.
-/

set_option autoImplicit false

namespace Tracemark.Alignment

open EditScript (Fills)

theorem mem_blockBreaks {line : Nat} {run : Option Nat} {flags : List Bool} {found : Nat}
    (member : found ∈ blockBreaks line run flags) :
    run = some found ∨ found < line + flags.length := by
  induction flags generalizing line run with
  | nil => cases member
  | cons flag rest ih =>
    rw [List.length_cons]
    cases flag with
    | true =>
      rcases ih member with same | below
      · cases run with
        | none =>
          have same' : line = found := Option.some.inj same
          right
          omega
        | some first => exact .inl same
      · omega
    | false =>
      rcases List.mem_append.1 member with here | there
      · exact .inl (Option.mem_toList.1 here)
      · rcases ih there with same | below
        · cases same
        · omega

theorem lt_of_mem_breaksIn {blank : List Bool} {lines : Interval} {found : Nat}
    (member : found ∈ breaksIn blank lines) : found < lines.stop := by
  unfold breaksIn at member
  cases sliced : lines.slice? blank with
  | none =>
    rw [sliced] at member
    cases member
  | some flags =>
    rw [sliced] at member
    unfold Interval.slice? at sliced
    split at sliced
    · next bounds =>
      cases sliced
      rcases mem_blockBreaks member with same | below
      · cases same
      · have length := List.length_take_le lines.length (blank.drop lines.start)
        change found < lines.start + ((blank.drop lines.start).take lines.length).length at below
        unfold Interval.length at below length
        omega
    · cases sliced

theorem lineKey_eq_nil_iff {line : Text} : lineKey line = [] ↔ line.isBlank = true := by
  unfold lineKey Text.dropReturn
  split
  · next blank => exact iff_of_true rfl blank
  · next content =>
    refine iff_of_false (fun none => content ?_) content
    cases found : Text.dropSuffix? ['\r'] line with
    | none =>
      rw [found, Option.getD_none] at none
      rw [none]
      rfl
    | some rest =>
      rw [found, Option.getD_some] at none
      rw [Text.dropSuffix?_eq_some_iff.1 found, none]
      rfl

namespace RestoreMap

theorem le_skipInjected (script : EditScript) (rounds line : Nat) :
    line ≤ skipInjected script rounds line := by
  induction rounds generalizing line with
  | zero => exact Nat.le_refl _
  | succ rounds ih =>
    unfold skipInjected
    split
    · next op found =>
      have inside := List.find?_some found
      simp only [Bool.and_eq_true, decide_eq_true_eq, Interval.mem_iff] at inside
      exact Nat.le_trans (Nat.le_of_lt inside.2.2) (ih _)
    · exact Nat.le_refl _

theorem dropInjected_le (script : EditScript) (rounds stop : Nat) :
    dropInjected script rounds stop ≤ stop := by
  induction rounds generalizing stop with
  | zero => exact Nat.le_refl _
  | succ rounds ih =>
    unfold dropInjected
    split
    · next op found =>
      have inside := List.find?_some found
      simp only [Bool.and_eq_true, decide_eq_true_eq] at inside
      exact Nat.le_trans (ih _) (Nat.le_of_lt inside.1.2)
    · exact Nat.le_refl _

theorem approximateEnd_le (map : RestoreMap) (op : EditOp) (sourceStart stop : Nat) :
    map.approximateEnd op sourceStart stop ≤ op.source.stop := by
  unfold approximateEnd
  simp only
  split
  · exact Nat.le_refl _
  · generalize found : Option.filter _ _ = place
    cases place with
    | none => exact Nat.le_refl _
    | some line =>
      obtain ⟨listed, -⟩ := Option.filter_eq_some_iff.1 found
      have below := lt_of_mem_breaksIn (List.mem_of_getElem? listed)
      exact Nat.le_of_lt below

theorem foldl_max_le {ops : EditScript} {start bound : Nat} (least : start ≤ bound)
    (all : ∀ op ∈ ops, op.source.stop ≤ bound) :
    ops.foldl (fun stop op => max stop op.source.stop) start ≤ bound := by
  induction ops generalizing start with
  | nil => exact least
  | cons op rest ih =>
    rw [List.forall_mem_cons] at all
    exact ih (Nat.max_le.2 ⟨least, all.1⟩) all.2

theorem endOfDropped_le {stop bound : Nat} {after : EditScript} (least : stop ≤ bound)
    (all : ∀ op ∈ after, op.source.stop ≤ bound) : endOfDropped stop after ≤ bound :=
  foldl_max_le least fun op member =>
    all op ((List.takeWhile_sublist _).subset (List.mem_filter.1 member).1)

theorem endOfDropped_le_start {stop line : Nat} {after : EditScript} {op : EditOp}
    (sorted : after.Pairwise EditOp.Precedes) (member : op ∈ after) (anchored : op.anchors line = true)
    (least : stop ≤ op.source.start) : endOfDropped stop after ≤ op.source.start := by
  apply foldl_max_le least
  intro other dropped
  have taken := (List.mem_filter.1 dropped).1
  -- The scan for dropped lines stops in front of `op`, whose lines are kept.
  have notTaken : op ∉ after.takeWhile fun op => op.kind = .insert || op.kind = .delete := by
    intro taken
    have kind := List.mem_takeWhile_imp taken
    rw [EditOp.anchors_iff] at anchored
    rcases anchored.1 with equal | replace
    · simp [equal] at kind
    · simp [replace] at kind
  have parted := List.takeWhile_append_dropWhile
    (p := fun op : EditOp => op.kind = .insert || op.kind = .delete) (l := after)
  rw [← parted] at sorted member
  rcases List.mem_append.1 member with front | back
  · exact absurd front notTaken
  · exact ((List.pairwise_append.1 sorted).2.2 other taken op back).source

def startUnder (op : EditOp) (start : Nat) : Nat :=
  if op.kind = .equal then op.source.start + (start - op.mutated.start) else op.source.start

def stopUnder (map : RestoreMap) (op : EditOp) (after : EditScript) (sourceStart stop : Nat) : Nat :=
  let reached :=
    if op.kind = .equal then op.source.start + (stop - op.mutated.start)
    else map.approximateEnd op sourceStart stop
  if map.foldContinuations ∧ stop = op.mutated.stop then endOfDropped reached after else reached

/-- How a run of mutated lines comes to its location. -/
structure Located (map : RestoreMap) (lines : Interval) (location : Location) (start stop : Nat)
    (first last : EditOp) (before after : EditScript) : Prop where
  start_eq : skipInjected map.script map.script.length lines.start = start
  stop_eq : dropInjected map.script map.script.length lines.stop = stop
  start_lt_stop : start < stop
  starts : map.script.find? (·.anchors start) = some first
  script_eq : map.script = before ++ last :: after
  stops : last.anchors (stop - 1) = true
  source_eq : location.source =
    ⟨startUnder first start, map.stopUnder last after (startUnder first start) stop⟩
  startAccurate_eq : location.startAccurate = decide (first.kind = .equal)
  endAccurate_eq : location.endAccurate = decide (last.kind = .equal)
  startWindow_eq : location.startWindow =
    if first.kind = .equal then ⟨startUnder first start, startUnder first start + 1⟩ else first.source
  content : location.source.start < location.source.stop

variable {map : RestoreMap} {lines : Interval} {location : Location}

theorem locate_eq_ok (found : map.locate lines = .ok location) :
    ∃ start stop first last before after,
      Located map lines location start stop first last before after := by
  unfold locate at found
  simp only [bind, Except.bind, throw, throwThe, MonadExceptOf.throw, pure, Except.pure] at found
  generalize start_eq : skipInjected map.script map.script.length lines.start = start at found
  generalize stop_eq : dropInjected map.script map.script.length lines.stop = stop at found
  by_cases none : stop ≤ start
  · simp [none] at found
  · simp only [none, if_false] at found
    cases starts : map.script.find? (·.anchors start) with
    | none => simp [starts] at found
    | some first =>
      simp only [starts] at found
      cases stops : map.script.dropWhile (!·.anchors (stop - 1)) with
      | nil => simp [stops] at found
      | cons last after =>
        simp only [stops] at found
        have parted : map.script = map.script.takeWhile (!·.anchors (stop - 1)) ++ last :: after := by
          rw [← stops, List.takeWhile_append_dropWhile]
        have anchored : last.anchors (stop - 1) = true := by
          have head := List.head?_dropWhile_not (!·.anchors (stop - 1)) map.script
          simpa [stops] using head
        by_cases content : map.stopUnder last after (startUnder first start) stop ≤ startUnder first start
        · rw [if_pos (by exact content)] at found
          cases found
        · rw [if_neg (by exact content)] at found
          cases found
          exact ⟨start, stop, first, last, _, after, start_eq, stop_eq, Nat.not_le.1 none, starts,
            parted, anchored, rfl, rfl, rfl, rfl, Nat.not_le.1 content⟩

theorem locate_eq_error {failure : Offsets.Failure} (lost : map.locate lines = .error failure) :
    failure = .noMapping lines := by
  unfold locate at lost
  simp only [bind, Except.bind, throw, throwThe, MonadExceptOf.throw, pure, Except.pure] at lost
  repeat' split at lost
  all_goals cases lost
  all_goals rfl

/-! Locations one after another. -/

section

variable {start stop sourceEnd mutatedEnd : Nat} {first last op : EditOp} {before after : EditScript}

theorem stopUnder_le (fills : Fills map.script ⟨0, sourceEnd⟩ ⟨0, mutatedEnd⟩)
    (member : op ∈ map.script) {line : Nat} (anchored : op.anchors line = true) (sourceStart : Nat) :
    (if op.kind = .equal then op.source.start + (line + 1 - op.mutated.start)
      else map.approximateEnd op sourceStart (line + 1)) ≤ op.source.stop := by
  split
  · next equal =>
    have fit := fills.fits member
    rw [EditOp.fits_iff (fills.forward op member), equal] at fit
    obtain ⟨-, from', to'⟩ := EditOp.anchors_iff.1 anchored
    simp only at fit
    omega
  · exact approximateEnd_le _ _ _ _

theorem Located.stop_le (located : Located map lines location start stop first last before after) :
    stop ≤ lines.stop :=
  located.stop_eq ▸ dropInjected_le _ _ _

theorem Located.le_start (located : Located map lines location start stop first last before after) :
    lines.start ≤ start :=
  located.start_eq ▸ le_skipInjected _ _ _

theorem Located.mem_first
    (located : Located map lines location start stop first last before after) :
    first ∈ map.script ∧ first.anchors start = true := by
  have anchored := List.find?_some located.starts
  exact ⟨List.mem_of_find?_eq_some located.starts, anchored⟩

theorem Located.mem_last
    (located : Located map lines location start stop first last before after) :
    last ∈ map.script := by
  rw [located.script_eq]
  exact List.mem_append_right _ List.mem_cons_self

theorem Located.stop_le_start
    (located : Located map lines location start stop first last before after)
    (fills : Fills map.script ⟨0, sourceEnd⟩ ⟨0, mutatedEnd⟩) (member : op ∈ after) {line : Nat}
    (anchored : op.anchors line = true) : location.source.stop ≤ op.source.start := by
  have within := stopUnder_le fills located.mem_last located.stops (startUnder first start)
  rw [Nat.sub_add_cancel (Nat.one_le_of_lt located.start_lt_stop)] at within
  rw [located.script_eq] at fills
  have behind := (fills.precedes.2 op member).source
  rw [located.source_eq]
  unfold stopUnder
  simp only
  split
  · have sorted := (List.pairwise_append.1 fills.pairwise).2.1.of_cons
    exact endOfDropped_le_start sorted member anchored (Nat.le_trans within behind)
  · exact Nat.le_trans within behind

theorem Located.source_stop_le
    (located : Located map lines location start stop first last before after)
    (fills : Fills map.script ⟨0, sourceEnd⟩ ⟨0, mutatedEnd⟩) :
    location.source.stop ≤ sourceEnd := by
  have within := stopUnder_le fills located.mem_last located.stops (startUnder first start)
  rw [Nat.sub_add_cancel (Nat.one_le_of_lt located.start_lt_stop)] at within
  have inside := (fills.bounds located.mem_last).2.1
  rw [located.source_eq]
  unfold stopUnder
  simp only
  split
  · apply endOfDropped_le (Nat.le_trans within inside)
    intro op member
    have listed : op ∈ map.script := by
      rw [located.script_eq]
      exact List.mem_append_right _ (List.mem_cons_of_mem _ member)
    exact (fills.bounds listed).2.1
  · exact Nat.le_trans within inside

theorem startUnder_lt (fills : Fills map.script ⟨0, sourceEnd⟩ ⟨0, mutatedEnd⟩)
    (member : op ∈ map.script) (anchored : op.anchors start = true) :
    startUnder op start < op.source.stop := by
  obtain ⟨kind, from', to'⟩ := EditOp.anchors_iff.1 anchored
  have fit := fills.fits member
  rw [EditOp.fits_iff (fills.forward op member)] at fit
  unfold startUnder
  rcases kind with equal | replace
  · rw [equal] at fit ⊢
    simp only [if_true] at fit ⊢
    omega
  · rw [replace] at fit ⊢
    exact fit.1

theorem Located.startUnder_lt
    (located : Located map lines location start stop first last before after)
    (fills : Fills map.script ⟨0, sourceEnd⟩ ⟨0, mutatedEnd⟩) :
    location.source.start < first.source.stop := by
  obtain ⟨member, anchored⟩ := located.mem_first
  rw [located.source_eq]
  exact RestoreMap.startUnder_lt fills member anchored

/-- The source lines before `reach` are behind what mutated lines from `line` on are traced to: such a
line has its counterpart from `reach` on, or it is in a replacement all whose lines before `reach` are
taken. -/
structure Passed (script : EditScript) (taken : Nat → Prop) (line reach : Nat) : Prop where
  equal : ∀ op ∈ script, op.kind = .equal → ∀ mark, line ≤ mark → mark ∈ op.mutated →
    reach ≤ op.source.start + (mark - op.mutated.start)
  replace : ∀ op ∈ script, op.kind = .replace → ∀ mark, line ≤ mark → mark ∈ op.mutated →
    ∀ place, op.source.start ≤ place → place < reach → taken place

variable {taken taken' : Nat → Prop} {line line' reach : Nat}

theorem Passed.zero (script : EditScript) (taken : Nat → Prop) : Passed script taken 0 0 :=
  ⟨fun _ _ _ _ _ _ => Nat.zero_le _, fun _ _ _ _ _ _ _ _ below => absurd below (Nat.not_lt_zero _)⟩

theorem Passed.mono {script : EditScript} (passed : Passed script taken line reach)
    (later : line ≤ line') (more : ∀ place, taken place → taken' place) :
    Passed script taken' line' reach where
  equal op member kind mark behind := passed.equal op member kind mark (Nat.le_trans later behind)
  replace op member kind mark behind inside place from' below :=
    more place (passed.replace op member kind mark (Nat.le_trans later behind) inside place from' below)

-- What a location starts with was not passed, unless it is taken.
theorem Located.not_passed
    (located : Located map lines location start stop first last before after)
    (passed : Passed map.script taken line reach) (behind : line ≤ lines.start) :
    if location.startAccurate then reach ≤ location.source.start
    else ∀ place, location.source.start ≤ place → place < reach → taken place := by
  obtain ⟨member, anchored⟩ := located.mem_first
  obtain ⟨kind, inside⟩ := EditOp.anchors_iff.1 anchored
  have later := Nat.le_trans behind located.le_start
  rw [located.startAccurate_eq, located.source_eq]
  unfold startUnder
  rcases kind with equal | replace
  · simp only [equal, decide_true, if_true]
    exact passed.equal first member equal start later inside
  · simp only [replace, reduceCtorEq, decide_false, Bool.false_eq_true, if_false]
    exact passed.replace first member replace start later inside

-- Once what was located is taken from `place` on, it is passed.
theorem Located.passed
    (located : Located map lines location start stop first last before after)
    (fills : Fills map.script ⟨0, sourceEnd⟩ ⟨0, mutatedEnd⟩) {place : Nat}
    (inFirst : place < first.source.stop)
    (skipped : first.kind = .replace → ∀ line, first.source.start ≤ line → line < place → taken line)
    (used : ∀ line, place ≤ line → line < location.source.stop → taken line) :
    Passed map.script taken lines.stop location.source.stop := by
  have stops := EditOp.anchors_iff.1 located.stops
  have lt := located.start_lt_stop
  have stop_le := located.stop_le
  have parted := located.script_eq ▸ fills
  -- A later mutated line stands in no operation before the last one under the location.
  have notBefore {op : EditOp} {mark : Nat} (member : op ∈ before) (later : lines.stop ≤ mark)
      (inside : mark ∈ op.mutated) : False := by
    have ends := (parted.precedes.1 op member).mutated
    rw [Interval.mem_iff] at inside
    omega
  have split {op : EditOp} {mark : Nat} (member : op ∈ map.script) (later : lines.stop ≤ mark)
      (inside : mark ∈ op.mutated) : op = last ∨ op ∈ after := by
    rw [located.script_eq] at member
    rcases List.mem_append.1 member with front | back
    · exact (notBefore front later inside).elim
    · exact List.mem_cons.1 back
  constructor
  · intro op member equal mark later inside
    rcases split member later inside with rfl | behind
    · have stopped : location.source.stop = op.source.start + (stop - op.mutated.start) := by
        have short : stop ≠ op.mutated.stop := by
          rw [Interval.mem_iff] at inside
          omega
        rw [located.source_eq]
        simp only [stopUnder, equal, short, and_false, if_true, if_false]
      omega
    · have anchored : op.anchors mark = true := EditOp.anchors_iff.2 ⟨.inl equal, inside⟩
      exact Nat.le_trans (located.stop_le_start fills behind anchored) (Nat.le_add_right _ _)
  · intro op member replace mark later inside line from' below
    rcases split member later inside with rfl | behind
    · rcases Nat.lt_or_ge line place with early | late
      -- The operation reaches back to the start of the run, which is then in a replacement as well.
      · obtain ⟨member', anchored⟩ := located.mem_first
        obtain ⟨-, starts, -⟩ := EditOp.anchors_iff.1 anchored
        rw [located.script_eq] at member'
        rcases List.mem_append.1 member' with front | back
        · have := (parted.precedes.1 first front).source
          omega
        · rcases List.mem_cons.1 back with rfl | back
          · exact skipped replace line from' early
          · have := (parted.precedes.2 first back).mutated
            omega
      · exact used line late below
    · have anchored : op.anchors mark = true := EditOp.anchors_iff.2 ⟨.inr replace, inside⟩
      have := located.stop_le_start fills behind anchored
      omega

end

section

variable {differ : Differ} {strategy : Strategy} {source mutated : List Text}

/-- The script of a restore map fills both sides. A diff is taken to pass the check of scripts. -/
theorem fills_align
    (checked : strategy = .diff → (differ.script (source.map lineKey)
      (mutated.map lineKey)).isPartition source.length mutated.length = true) :
    Fills (align strategy source mutated differ).script ⟨0, source.length⟩ ⟨0, mutated.length⟩ := by
  cases strategy with
  | diff =>
    have fills : Fills (differ.script (source.map lineKey) (mutated.map lineKey)) _ _ :=
      differ.fills (by simpa using checked rfl)
    simp only [List.length_map] at fills
    exact EditScript.fills_demoteBlankAnchors fills
  | sequential =>
    have fills := fills_sequential (source.map lineKey) (mutated.map lineKey)
    simp only [List.length_map] at fills
    exact fills

theorem forward_align
    (checked : (align strategy source mutated differ).script.isPartition source.length mutated.length =
      true) :
    ∀ op ∈ (align strategy source mutated differ).script, op.Forward := by
  intro op member
  have fit := EditScript.fits_of_covers checked member
  cases strategy with
  | diff =>
    by_cases replaced : op.kind = .replace
    · exact EditOp.forward_of_fits fit (.inr replaced)
    -- The fold has made replacements only, so the operation is one of the diff.
    · have raw := EditScript.mem_of_mem_foldBlankRuns replaced member
      exact differ.forward _ _ op (raw.resolve_left List.not_mem_nil)
  | sequential =>
    have fills : Fills (align .sequential source mutated differ).script ⟨0, source.length⟩
        ⟨0, mutated.length⟩ := fills_align nofun
    exact fills.forward op member

end

end RestoreMap

end Tracemark.Alignment
