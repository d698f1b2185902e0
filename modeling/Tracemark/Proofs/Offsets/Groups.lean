import Tracemark.Proofs.Alignment.Groups
import Tracemark.Proofs.Offsets.Unmapped

/-! Blocks that share a replacement.

A replacement stands for as many groups of source lines as it has groups of mutated lines. The mutated
groups are traced one after another. Each starts at the first source line that is neither blank nor
used, which is behind the groups before it, and gives up the groups behind it. So each is traced to the
source group in its own place, and the blank lines between the groups stay unused.
-/

set_option autoImplicit false

namespace Tracemark.Offsets

open Tracemark.Alignment (Differ EditOp Grouped Location RestoreMap Strategy breaksIn lineKey)
open Tracemark.Alignment.EditScript (Fills)

structure Tracker.Restores (tracker : Tracker) (source mutated : List Text) (map : RestoreMap) :
    Prop where
  index : tracker.index = .build source
  alignment : tracker.alignment = some ⟨mutated, map⟩
  partition : map.script.isPartition source.length mutated.length = true
  /-- No run ends before it starts. The check alone passes an empty run that steps back, which no
  alignment writes. -/
  forward : ∀ op ∈ map.script, op.Forward
  sourceBlank : map.sourceBlank = source.map Text.isBlank
  mutatedBlank : map.mutatedBlank = mutated.map Text.isBlank
  used : tracker.used.length = source.length

def Attempt.Approximates (index : LineIndex) (attempt : Attempt) (lines : Interval) : Prop :=
  ∃ octets, index.octetRange lines = .ok octets ∧
    attempt.result = .ok ⟨octets.start, octets.stop, false, false⟩

variable {tracker : Tracker} {source mutated : List Text} {map : RestoreMap} {op : EditOp}
  {lines span : Interval} {groups spans : List Interval} {start start' : Nat}

theorem map_isEmpty_lineKey (lines : List Text) :
    (lines.map lineKey).map List.isEmpty = lines.map Text.isBlank := by
  rw [List.map_map]
  exact List.map_congr_left fun _ _ =>
    Bool.eq_iff_iff.2 (List.isEmpty_iff.trans Alignment.lineKey_eq_nil_iff)

namespace Tracker

theorem restores_align {differ : Differ} {strategy : Strategy}
    (index : tracker.index = .build source)
    (used : tracker.used.length = source.length)
    (partition : (RestoreMap.align strategy source mutated differ).script.isPartition source.length
      mutated.length = true) :
    (tracker.align strategy mutated differ).Restores source mutated
      (.align strategy source mutated differ) where
  index := index
  alignment := by
    have texts : tracker.index.records.map (·.text) = source := by
      rw [index]
      exact LineIndex.map_text_recordsFrom 0 source
    rw [align, texts]
  partition := partition
  forward := RestoreMap.forward_align partition
  sourceBlank := map_isEmpty_lineKey source
  mutatedBlank := map_isEmpty_lineKey mutated
  used := used

theorem Restores.annotateAll (restores : tracker.Restores source mutated map)
    (spans : List Interval) : (tracker.annotateAll spans).Restores source mutated map := by
  obtain ⟨used, same, length⟩ := tracker.exists_annotateAll spans
  rw [same]
  exact { restores with used := length.trans restores.used }

theorem Restores.fills (restores : tracker.Restores source mutated map) :
    Fills map.script ⟨0, source.length⟩ ⟨0, mutated.length⟩ :=
  ⟨restores.partition, restores.forward⟩

theorem Restores.use (restores : tracker.Restores source mutated map) (lines : Interval) :
    (tracker.use lines).Restores source mutated map :=
  { restores with used := List.length_mapIdx.trans restores.used }

theorem Restores.taken_iff (restores : tracker.Restores source mutated map) (line : Nat) :
    tracker.Taken line ↔ tracker.isUsed line = true ∨ map.sourceBlank[line]? = some true := by
  rw [Taken, restores.index, LineIndex.get?_build, restores.sourceBlank, List.getElem?_map]
  cases source[line]? with
  | none => simp
  | some text => simp [LineRecord.isBlank]

theorem placed?_eq_of_first_free {location : Location} (approximate : location.startAccurate = false)
    (behind : location.source.start ≤ start) (window : start < location.startWindow.stop)
    (content : start < location.source.stop) (free : ¬tracker.Taken start)
    (taken : ∀ line, location.source.start ≤ line → line < start → tracker.Taken line) :
    tracker.placed? location = some ⟨start, location.source.stop⟩ := by
  cases placed : tracker.placed? location with
  | none => exact absurd ((placed?_eq_none_iff.1 placed).2 start behind window content) free
  | some lines =>
    obtain ⟨stop_eq, from', -, -, first, all⟩ := placed?_of_not_accurate approximate placed
    rcases Nat.lt_trichotomy lines.start start with early | same | late
    · exact absurd (taken lines.start from' early) first
    · rw [← same, ← stop_eq]
    · exact absurd (all start behind late) free

/-- What is left of a replacement once the groups in front are traced. From source line `start` on there
are as many groups as from mutated line `start'` on. The source lines of the replacement are taken up to
there, and none behind is used. -/
structure Awaits (tracker : Tracker) (map : RestoreMap) (op : EditOp) (start start' : Nat)
    (groups spans : List Interval) : Prop where
  grouped : Grouped map.sourceBlank op.source.stop start groups
  grouped' : Grouped map.mutatedBlank op.mutated.stop start' spans
  same : groups.length = spans.length
  breaks : groups.dropLast.map (·.stop) <:+ breaksIn map.sourceBlank op.source
  behind : op.source.start ≤ start
  behind' : op.mutated.start ≤ start'
  taken : ∀ line, op.source.start ≤ line → line < start → tracker.Taken line
  unused : ∀ line, start ≤ line → line < op.source.stop → tracker.isUsed line = false

section

variable (restores : tracker.Restores source mutated map) (member : op ∈ map.script)

include restores member

theorem Restores.stop_le : op.source.stop ≤ source.length ∧ op.source.stop ≤ tracker.used.length := by
  have within := (restores.fills.bounds member).2.1
  exact ⟨within, restores.used ▸ within⟩

theorem Awaits.attempt (replace : op.kind = .replace) (short : map.foldContinuations = false)
    (awaits : tracker.Awaits map op start start' (lines :: groups) (span :: spans)) :
    (tracker.attempt span).Approximates tracker.index lines ∧
      (tracker.attempt span).after = tracker.use lines := by
  obtain ⟨rfl, some_line, within, content⟩ := awaits.grouped.head
  obtain ⟨rfl, some_line', within', -⟩ := awaits.grouped'.head
  have located := RestoreMap.locate_in_replacement restores.fills member replace short some_line'
    awaits.behind' within'
  rw [RestoreMap.approximateEnd_of_grouped awaits.grouped awaits.grouped' (Nat.succ.inj awaits.same)
    awaits.behind awaits.breaks] at located
  have before : lines.start < op.source.stop := Nat.lt_of_lt_of_le some_line within
  have free : ¬tracker.Taken lines.start := by
    rw [restores.taken_iff, awaits.unused _ (Nat.le_refl _) before,
      content _ some_line (Nat.le_refl _)]
    simp
  have placed : tracker.placed? ⟨⟨op.source.start, lines.stop⟩, false, false, op.source⟩ =
      some lines :=
    placed?_eq_of_first_free rfl awaits.behind before some_line free awaits.taken
  obtain ⟨first, last, -, -, range, -⟩ := LineIndex.exists_octets some_line
    (Nat.le_trans within (restores.stop_le member).1)
  rw [← restores.index] at range
  have found : tracker.annotate span = .ok (⟨(tracker.index.octets lines).start,
      (tracker.index.octets lines).stop, false, false⟩, tracker.use lines) := by
    unfold Tracker.annotate
    simp only [restoreMap?, restores.alignment, Option.map_some, located, placed, range, bind,
      Except.bind, pure, Except.pure]
  rw [Tracker.attempt, found]
  exact ⟨⟨_, range, rfl⟩, rfl⟩

-- The first group is used then, and the lines up to the next one are blank.
theorem Awaits.use (awaits : tracker.Awaits map op start start' (lines :: groups) (span :: spans))
    (some_group : groups ≠ []) :
    ∃ next next', (tracker.use lines).Awaits map op next next' groups spans := by
  obtain ⟨grouped, grouped', same, breaks, behind, behind', taken, unused⟩ := awaits
  have same' : groups.length = spans.length := Nat.succ.inj same
  cases grouped with
  | last => exact absurd rfl some_group
  | @more _ gap next _ some_line content parted between later =>
    cases grouped' with
    | last => exact absurd (List.length_eq_zero_iff.1 same') some_group
    | @more _ gap' next' _ some_line' content' parted' between' later' =>
      have before := later.lt_stop
      have within : gap ≤ tracker.used.length := by
        have := (restores.stop_le member).2
        omega
      refine ⟨next, next', later, later', same', ?breaks, by omega, by omega, ?taken, ?unused⟩
      case breaks =>
        rw [List.dropLast_cons_of_ne_nil some_group, List.map_cons] at breaks
        exact (List.suffix_cons _ _).trans breaks
      case taken =>
        intro line from' below
        rcases Nat.lt_or_ge line start with front | reached
        · exact taken_use _ (taken line from' front)
        rcases Nat.lt_or_ge line gap with own | behind
        · exact taken_of_mem_use (Nat.lt_of_lt_of_le own within) ⟨reached, own⟩
        · exact ((restores.use _).taken_iff line).2 (.inr (between line below behind))
      case unused =>
        intro line from' below
        rw [Bool.eq_false_iff, Ne, isUsed_use_of_le within, unused line (by omega) below]
        rintro (used | own)
        · cases used
        · exact Nat.not_le.2 own.2 (Nat.le_trans (Nat.le_of_lt parted) from')

theorem Awaits.attempts (replace : op.kind = .replace) (short : map.foldContinuations = false)
    (awaits : tracker.Awaits map op start start' groups spans) :
    List.Forall₂ (Attempt.Approximates tracker.index) (tracker.attempts spans) groups ∧
      ∀ line, (tracker.annotateAll spans).isUsed line = true ↔
        tracker.isUsed line = true ∨ ∃ lines ∈ groups, line ∈ lines := by
  induction groups generalizing tracker start start' spans with
  | nil => exact absurd rfl awaits.grouped.ne_nil
  | cons lines groups ih =>
    obtain ⟨span, spans, rfl⟩ := List.exists_cons_of_ne_nil awaits.grouped'.ne_nil
    obtain ⟨traced, after⟩ := awaits.attempt restores member replace short
    have within : lines.stop ≤ tracker.used.length :=
      Nat.le_trans awaits.grouped.head.2.2.1 (restores.stop_le member).2
    have rest : List.Forall₂ (Attempt.Approximates tracker.index)
        ((tracker.use lines).attempts spans) groups ∧
        ∀ line, ((tracker.use lines).annotateAll spans).isUsed line = true ↔
          (tracker.use lines).isUsed line = true ∨ ∃ lines ∈ groups, line ∈ lines := by
      by_cases none : groups = []
      · subst none
        obtain rfl := List.length_eq_zero_iff.1 (Nat.succ.inj awaits.same).symm
        exact ⟨.nil, fun line => by simp [Tracker.annotateAll]⟩
      · obtain ⟨next, next', later⟩ := awaits.use restores member none
        exact ih (restores.use lines) later
    refine ⟨?_, fun line => ?_⟩
    · rw [Tracker.attempts, after]
      exact .cons traced rest.1
    · rw [Tracker.annotateAll, List.foldl_cons, after]
      change (Tracker.annotateAll _ spans).isUsed line = true ↔ _
      rw [rest.2, isUsed_use_of_le within, List.exists_mem_cons_iff, or_assoc]

end

end Tracker

/-- Mutated groups of a replacement are traced to its source groups one by one, however long the groups
and the blank runs between them are. Of the lines of the replacement, those of its groups are used
afterwards. -/
theorem attempts_groups (restores : tracker.Restores source mutated map) (member : op ∈ map.script)
    (replace : op.kind = .replace) (short : map.foldContinuations = false)
    (grouped : Grouped (source.map Text.isBlank) op.source.stop op.source.start groups)
    (grouped' : Grouped (mutated.map Text.isBlank) op.mutated.stop op.mutated.start spans)
    (same : groups.length = spans.length)
    (unused : ∀ line ∈ op.source, tracker.isUsed line = false) :
    List.Forall₂ (Attempt.Approximates (.build source)) (tracker.attempts spans) groups ∧
      (∀ line, (tracker.annotateAll spans).isUsed line = true ↔
        tracker.isUsed line = true ∨ ∃ lines ∈ groups, line ∈ lines) ∧
      ∀ line ∈ op.source, (source.map Text.isBlank)[line]? = some true →
        (tracker.annotateAll spans).isUsed line = false := by
  rw [← restores.index, ← restores.sourceBlank]
  rw [← restores.sourceBlank] at grouped
  rw [← restores.mutatedBlank] at grouped'
  have awaits : tracker.Awaits map op op.source.start op.mutated.start groups spans :=
    { grouped := grouped
      grouped' := grouped'
      same := same
      breaks := grouped.breaksIn ▸ List.suffix_rfl
      behind := Nat.le_refl _
      behind' := Nat.le_refl _
      taken := fun _ from' below => absurd from' (Nat.not_le.2 below)
      unused := fun line from' below => unused line ⟨from', below⟩ }
  obtain ⟨traced, used⟩ := awaits.attempts restores member replace short
  refine ⟨traced, used, fun line inside blank => ?_⟩
  rw [Bool.eq_false_iff, Ne, used, unused line inside]
  rintro (used | ⟨lines, listed, own⟩)
  · cases used
  · rw [grouped.content_of_mem listed own] at blank
    cases blank

/-- Two groups behind a line that was traced before. One blank line parts the source groups, and two
part the mutated ones. -/
theorem attempts_groups_uneven :
    let source : List Text := [['k'], ['a', '1'], ['a', '2'], [], ['b', '1'], ['b', '2']]
    let mutated : List Text := [['k'], ['A'], [], [' '], ['B']]
    let map := RestoreMap.align .diff source mutated
    let tracker := ((Tracker.ofLines source).align .diff mutated).annotateAll [⟨0, 1⟩]
    let op : EditOp := ⟨.replace, ⟨1, 6⟩, ⟨1, 5⟩⟩
    let groups : List Interval := [⟨1, 3⟩, ⟨4, 6⟩]
    let spans : List Interval := [⟨1, 2⟩, ⟨4, 5⟩]
    tracker.Restores source mutated map ∧ op ∈ map.script ∧ map.foldContinuations = false ∧
      Grouped (source.map Text.isBlank) 6 1 groups ∧ Grouped (mutated.map Text.isBlank) 5 1 spans ∧
      (∀ line ∈ op.source, tracker.isUsed line = false) ∧
      List.Forall₂ (Attempt.Approximates (.build source)) (tracker.attempts spans) groups ∧
      ∀ line ∈ op.source, (source.map Text.isBlank)[line]? = some true →
        (tracker.annotateAll spans).isUsed line = false := by
  intro source mutated map tracker op groups spans
  have restores : tracker.Restores source mutated map :=
    (Tracker.restores_align rfl rfl (by decide +kernel)).annotateAll _
  have member : op ∈ map.script := by decide +kernel
  have grouped : Grouped (source.map Text.isBlank) 6 1 groups :=
    .more (by decide) (by decide +kernel) (by decide) (by decide +kernel)
      (.last (by decide) (by decide +kernel))
  have grouped' : Grouped (mutated.map Text.isBlank) 5 1 spans :=
    .more (by decide) (by decide +kernel) (by decide) (by decide +kernel)
      (.last (by decide) (by decide +kernel))
  have unused : ∀ line < 6, 1 ≤ line → tracker.isUsed line = false := by decide +kernel
  have unused' : ∀ line ∈ op.source, tracker.isUsed line = false :=
    fun line inside => unused line inside.2 inside.1
  obtain ⟨traced, -, blank⟩ :=
    attempts_groups restores member rfl rfl grouped grouped' rfl unused'
  exact ⟨restores, member, rfl, grouped, grouped', unused', traced, blank⟩

end Tracemark.Offsets
