import Tracemark.Proofs.Alignment.Translation

/-! Groups of lines parted by blank lines.

Between two groups stands one break, at the end of the former. So a run that ends with a group of a
replacement leaves as many breaks behind as there are later groups, and gives up as many on the source
side. Where both sides have equally many groups, what is left ends with the same group.
-/

set_option autoImplicit false

namespace Tracemark.Alignment

open EditScript (Fills)

/-- The lines from `start` up to `stop` are groups of lines with content, with one or more blank lines
between two groups and none at either end. -/
inductive Grouped (blank : List Bool) (stop : Nat) : (start : Nat) → List Interval → Prop
  | last {start : Nat} (some_line : start < stop)
      (content : ∀ line < stop, start ≤ line → blank[line]? = some false) :
      Grouped blank stop start [⟨start, stop⟩]
  | more {start gap next : Nat} {rest : List Interval} (some_line : start < gap)
      (content : ∀ line < gap, start ≤ line → blank[line]? = some false)
      (parted : gap < next)
      (between : ∀ line < next, gap ≤ line → blank[line]? = some true)
      (later : Grouped blank stop next rest) : Grouped blank stop start (⟨start, gap⟩ :: rest)

variable {blank : List Bool} {stop start line gap first : Nat} {run : Option Nat}
  {lines span : Interval} {groups spans : List Interval}

namespace Grouped

theorem ne_nil (grouped : Grouped blank stop start groups) : groups ≠ [] := by
  cases grouped <;> exact List.cons_ne_nil _ _

theorem content_start (grouped : Grouped blank stop start groups) : blank[start]? = some false := by
  cases grouped with
  | last some_line content => exact content start some_line (Nat.le_refl _)
  | more some_line content => exact content start some_line (Nat.le_refl _)

theorem lt_stop (grouped : Grouped blank stop start groups) : start < stop := by
  induction grouped with
  | last some_line => exact some_line
  | more some_line _ parted _ _ ih => omega

theorem stop_le (grouped : Grouped blank stop start groups) : stop ≤ blank.length := by
  induction grouped with
  | @last start some_line content =>
    have final := content (stop - 1) (by omega) (Nat.le_sub_one_of_lt some_line)
    have within := (List.getElem?_eq_some_iff.1 final).1
    omega
  | more _ _ _ _ _ ih => exact ih

theorem content_of_mem (grouped : Grouped blank stop start groups) (member : lines ∈ groups)
    (inside : line ∈ lines) : blank[line]? = some false := by
  induction grouped with
  | last some_line content =>
    cases List.mem_singleton.1 member
    exact content line inside.2 inside.1
  | more some_line content parted between later ih =>
    rcases List.mem_cons.1 member with rfl | member
    · exact content line inside.2 inside.1
    · exact ih member

theorem head (grouped : Grouped blank stop start (lines :: groups)) :
    lines.start = start ∧ start < lines.stop ∧ lines.stop ≤ stop ∧
      ∀ line < lines.stop, start ≤ line → blank[line]? = some false := by
  cases grouped with
  | last some_line content => exact ⟨rfl, some_line, Nat.le_refl _, content⟩
  | more some_line content parted _ later =>
    have := later.lt_stop
    exact ⟨rfl, some_line, by simp only; omega, content⟩

end Grouped

/-! Breaks between groups. -/

def breaksFrom (blank : List Bool) (stop : Nat) (run : Option Nat) (line : Nat) : List Nat :=
  blockBreaks line run ((blank.drop line).take (stop - line))

theorem breaksIn_eq (forward : line ≤ stop) (within : stop ≤ blank.length) :
    breaksIn blank ⟨line, stop⟩ = breaksFrom blank stop none line := by
  rw [breaksIn, Interval.slice?, if_pos ⟨forward, within⟩]
  rfl

theorem breaksFrom_eq {flag : Bool} (here : blank[line]? = some flag) (before : line < stop) :
    breaksFrom blank stop run line =
      blockBreaks line run (flag :: (blank.drop (line + 1)).take (stop - (line + 1))) := by
  obtain ⟨within, rfl⟩ := List.getElem?_eq_some_iff.1 here
  have some_line : stop - line = stop - (line + 1) + 1 := by omega
  rw [breaksFrom, List.drop_eq_getElem_cons within, some_line, List.take_succ_cons]

theorem breaksFrom_stop : breaksFrom blank stop none stop = [] := by
  rw [breaksFrom, Nat.sub_self, List.take_zero]
  rfl

-- Blank lines change nothing within a blank run, and lines with content change nothing outside of one.
theorem breaksFrom_steady (forward : start ≤ gap) (within : gap ≤ stop)
    (steady : ∀ line < gap, start ≤ line → blank[line]? = some run.isSome) :
    breaksFrom blank stop run start = breaksFrom blank stop run gap := by
  induction forward using Nat.decreasingInduction with
  | self => rfl
  | of_succ line before ih =>
    rw [breaksFrom_eq (steady line before (Nat.le_refl _)) (Nat.lt_of_lt_of_le before within),
      ← ih fun later early behind => steady later early (Nat.le_of_succ_le behind)]
    cases run <;> rfl

theorem breaksFrom_blank (here : blank[line]? = some true) (before : line < stop) :
    breaksFrom blank stop none line = breaksFrom blank stop (some line) line := by
  rw [breaksFrom_eq here before, breaksFrom_eq here before]
  rfl

theorem breaksFrom_content (here : blank[line]? = some false) (before : line < stop) :
    breaksFrom blank stop (some first) line = first :: breaksFrom blank stop none line := by
  rw [breaksFrom_eq here before, breaksFrom_eq here before]
  rfl

namespace Grouped

theorem breaksFrom (grouped : Grouped blank stop start groups) :
    breaksFrom blank stop none start = groups.dropLast.map (·.stop) := by
  induction grouped with
  | last some_line content =>
    rw [breaksFrom_steady (Nat.le_of_lt some_line) (Nat.le_refl _) content, breaksFrom_stop]
    rfl
  | @more start gap next rest some_line content parted between later ih =>
    have before := later.lt_stop
    have opens := between gap parted (Nat.le_refl _)
    rw [breaksFrom_steady (Nat.le_of_lt some_line) (by omega) content,
      breaksFrom_blank opens (by omega),
      breaksFrom_steady (Nat.le_of_lt parted) (Nat.le_of_lt before) between,
      breaksFrom_content later.content_start before, ih, List.dropLast_cons_of_ne_nil later.ne_nil]
    rfl

theorem breaksIn (grouped : Grouped blank stop start groups) :
    breaksIn blank ⟨start, stop⟩ = groups.dropLast.map (·.stop) := by
  rw [breaksIn_eq (Nat.le_of_lt grouped.lt_stop) grouped.stop_le, grouped.breaksFrom]

-- The break behind a group is found from the end of that group on as well.
theorem breaksIn_stop (grouped : Grouped blank stop start (lines :: groups)) :
    Alignment.breaksIn blank ⟨lines.stop, stop⟩ = (lines :: groups).dropLast.map (·.stop) := by
  obtain ⟨-, some_line, within, content⟩ := grouped.head
  rw [breaksIn_eq within grouped.stop_le, ← grouped.breaksFrom,
    breaksFrom_steady (Nat.le_of_lt some_line) within content]

end Grouped

/-! Runs within a replacement. -/

namespace RestoreMap

variable {map : RestoreMap} {op : EditOp} {sourceStart sourceEnd mutatedEnd start' : Nat}

/-- A run that ends with a group of a replacement reaches the end of the source group at the same place
from the back. The breaks in front of that group do not matter. -/
theorem approximateEnd_of_grouped
    (grouped : Grouped map.sourceBlank op.source.stop start (lines :: groups))
    (grouped' : Grouped map.mutatedBlank op.mutated.stop start' (span :: spans))
    (same : groups.length = spans.length) (behind : sourceStart ≤ start)
    (breaks : (lines :: groups).dropLast.map (·.stop) <:+
      breaksIn map.sourceBlank ⟨sourceStart, op.source.stop⟩) :
    map.approximateEnd op sourceStart span.stop = lines.stop := by
  have later : (breaksIn map.mutatedBlank ⟨span.stop, op.mutated.stop⟩).length = groups.length := by
    rw [grouped'.breaksIn_stop, List.length_map, List.length_dropLast, List.length_cons, same]
    rfl
  have beyond : sourceStart < lines.stop := Nat.lt_of_le_of_lt behind grouped.head.2.1
  obtain ⟨ahead, breaks⟩ := breaks
  unfold approximateEnd
  simp only [later, ← breaks]
  cases grouped with
  | last => rfl
  | @more _ gap _ _ _ _ _ _ rest =>
    rw [List.dropLast_cons_of_ne_nil rest.ne_nil, List.map_cons]
    have some_later : 0 < groups.length := List.length_pos_iff.2 rest.ne_nil
    have place : (ahead ++ gap :: groups.dropLast.map (·.stop)).length - groups.length =
        ahead.length := by
      simp only [List.length_append, List.length_cons, List.length_map, List.length_dropLast]
      omega
    have enough : ¬(groups.length = 0 ∨
        (ahead ++ gap :: groups.dropLast.map (·.stop)).length < groups.length) := by
      simp only [List.length_append, List.length_cons, List.length_map, List.length_dropLast]
      omega
    rw [if_neg enough, place, List.getElem?_append_right (Nat.le_refl _), Nat.sub_self,
      List.getElem?_cons_zero, Option.filter_some, if_pos (decide_eq_true beyond), Option.getD_some]

theorem locate_in_replacement (fills : Fills map.script ⟨0, sourceEnd⟩ ⟨0, mutatedEnd⟩)
    (member : op ∈ map.script) (replace : op.kind = .replace) (short : map.foldContinuations = false)
    (content : lines.start < lines.stop) (starts : op.mutated.start ≤ lines.start)
    (stops : lines.stop ≤ op.mutated.stop) :
    map.locate lines = .ok ⟨⟨op.source.start, map.approximateEnd op op.source.start lines.stop⟩,
      false, false, op.source⟩ := by
  have holds {line : Nat} (inside : line ∈ lines) : line ∈ op.mutated := by
    rw [Interval.mem_iff] at inside ⊢
    omega
  have within : lines.stop ≤ mutatedEnd := Nat.le_trans stops (fills.bounds member).2.2.2
  have kept {line : Nat} (inside : line ∈ lines) : ¬map.script.Injected line := by
    refine (fills.not_injected_iff ⟨Nat.zero_le _, Nat.lt_of_lt_of_le inside.2 within⟩).2 ?_
    exact ⟨op, member, EditOp.anchors_iff.2 ⟨.inr replace, holds inside⟩⟩
  have opening : lines.start ∈ lines := ⟨Nat.le_refl _, content⟩
  have closing : lines.stop - 1 ∈ lines := ⟨Nat.le_sub_one_of_lt content, by omega⟩
  obtain ⟨location, first, last, before, after, found, located⟩ := exists_located fills within
    ⟨_, opening, op, member, EditOp.anchors_iff.2 ⟨.inr replace, holds opening⟩⟩
  -- No line of the run was injected, so nothing is clipped.
  have clipped : map.script.clip lines = lines := by
    refine EditScript.clip_eq_self (kept opening) fun line last => kept ⟨?_, ?_⟩ <;> omega
  rw [clipped] at located
  obtain ⟨member', anchored⟩ := located.mem_first
  obtain rfl := fills.eq_of_mem member member' (holds opening) (EditOp.anchors_iff.1 anchored).2
  obtain rfl := fills.eq_of_mem member located.mem_last (holds closing)
    (EditOp.anchors_iff.1 located.stops).2
  obtain ⟨-, -, -, -, -, -, source, startAccurate, endAccurate, startWindow, -⟩ := located
  rw [stopUnder_eq, if_neg (by simp [short]), reachUnder] at source
  simp only [replace, reduceCtorEq, if_false, startUnder, decide_false]
    at source startAccurate endAccurate startWindow
  rw [found]
  cases location
  simp only at source startAccurate endAccurate startWindow
  rw [source, startAccurate, endAccurate, startWindow]

end RestoreMap

end Tracemark.Alignment
