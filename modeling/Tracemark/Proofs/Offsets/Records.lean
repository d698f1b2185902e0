import Tracemark.Offsets.LineIndex
import Tracemark.Proofs.Text.BlockLines

/-! The octets of lines in the document.

The record of a line says how many octets stand before it, each line feed counted as one. A range from
the start of one line to the end of the same or a later one is a slice of the document: the lines put
back together.
-/

set_option autoImplicit false

namespace Tracemark

namespace Text

def octetSpread : List Text → Nat
  | [] => 0
  | line :: rest => line.octets + 1 + octetSpread rest

@[simp] theorem octetSpread_nil : octetSpread [] = 0 := rfl

@[simp] theorem octetSpread_cons (line : Text) (rest : List Text) :
    octetSpread (line :: rest) = line.octets + 1 + octetSpread rest :=
  rfl

@[simp] theorem octetSpread_append (first second : List Text) :
    octetSpread (first ++ second) = octetSpread first + octetSpread second := by
  induction first with
  | nil => simp
  | cons line rest ih =>
    rw [List.cons_append, octetSpread_cons, octetSpread_cons, ih]
    omega

theorem joinLines_append_of_right (front : List Text) {rest : List Text} (some_rest : rest ≠ []) :
    joinLines (front ++ rest) = front.flatMap (· ++ ['\n']) ++ joinLines rest := by
  induction front with
  | nil => rfl
  | cons line others ih =>
    obtain ⟨next, later, same⟩ := List.exists_cons_of_ne_nil
      (List.append_ne_nil_of_right_ne_nil others some_rest)
    rw [List.cons_append, same, joinLines_cons_cons, ← same, ih]
    simp

theorem joinLines_append_of_left {front : List Text} (some_front : front ≠ []) (rest : List Text) :
    joinLines (front ++ rest) = joinLines front ++ rest.flatMap ('\n' :: ·) := by
  induction rest generalizing front with
  | nil => simp
  | cons line others ih =>
    have moved : front ++ line :: others = front ++ [line] ++ others := by simp
    rw [moved, ih (by simp), joinLines_append some_front (List.cons_ne_nil _ _)]
    simp [joinLines]

theorem octets_feed : octets ['\n'] = 1 := rfl

theorem octets_flatMap_feed (lines : List Text) :
    octets (lines.flatMap (· ++ ['\n'])) = octetSpread lines := by
  induction lines with
  | nil => rfl
  | cons line rest ih =>
    rw [List.flatMap_cons, octets_append, octets_append, octets_feed, ih, octetSpread_cons]

theorem octets_joinLines {lines : List Text} (some_line : lines ≠ []) :
    (joinLines lines).octets + 1 = octetSpread lines := by
  induction lines with
  | nil => exact absurd rfl some_line
  | cons line rest ih =>
    cases rest with
    | nil => simp [joinLines]
    | cons next others =>
      have feed : '\n'.utf8Size = 1 := rfl
      rw [joinLines_cons_cons, octets_append, octets_cons, octetSpread_cons,
        ← ih (List.cons_ne_nil _ _), feed]
      omega

end Text

namespace Offsets.LineIndex

open Text (octetSpread)

theorem map_text_recordsFrom (start : Nat) (lines : List Text) :
    (recordsFrom start lines).map (·.text) = lines := by
  induction lines generalizing start with
  | nil => rfl
  | cons line rest ih => rw [recordsFrom, List.map_cons, ih]

theorem getElem?_recordsFrom (start : Nat) (lines : List Text) (line : Nat) :
    (recordsFrom start lines)[line]? = lines[line]?.map fun text =>
      ⟨text, start + octetSpread (lines.take line),
        start + octetSpread (lines.take line) + text.octets⟩ := by
  induction lines generalizing start line with
  | nil => rfl
  | cons text rest ih =>
    cases line with
    | zero => simp [recordsFrom]
    | succ line =>
      have shifted : start + text.octets + 1 + octetSpread (rest.take line) =
          start + (text.octets + 1 + octetSpread (rest.take line)) := by omega
      rw [recordsFrom, List.getElem?_cons_succ, ih, List.getElem?_cons_succ, List.take_succ_cons,
        Text.octetSpread_cons, shifted]

variable {lines : List Text} {first last : Nat} {record other : LineRecord}

theorem get?_build (lines : List Text) (line : Nat) : (build lines).get? line =
    lines[line]?.map fun text =>
      ⟨text, octetSpread (lines.take line), octetSpread (lines.take line) + text.octets⟩ := by
  have same := getElem?_recordsFrom 0 lines line
  simp only [Nat.zero_add] at same
  exact same

theorem octetSpread_take (lines : List Text) (before : first ≤ last) :
    octetSpread (lines.take last) =
      octetSpread (lines.take first) + octetSpread ((lines.drop first).take (last - first)) := by
  obtain ⟨more, rfl⟩ := Nat.exists_eq_add_of_le before
  rw [List.take_add, Text.octetSpread_append, Nat.add_sub_cancel_left]

theorem start_eq (found : (build lines).get? first = some record) :
    record.start = octetSpread (lines.take first) := by
  rw [get?_build] at found
  obtain ⟨text, -, rfl⟩ := Option.map_eq_some_iff.1 found
  rfl

theorem stop_eq (found : (build lines).get? first = some record) :
    record.stop + 1 = octetSpread (lines.take (first + 1)) := by
  rw [get?_build] at found
  obtain ⟨text, here, rfl⟩ := Option.map_eq_some_iff.1 found
  rw [List.take_add_one, here]
  simp [Nat.add_assoc]

theorem start_le_stop (found : (build lines).get? first = some record)
    (found' : (build lines).get? last = some other) (before : first ≤ last) :
    record.start ≤ other.stop := by
  have start := start_eq found
  rw [get?_build] at found'
  obtain ⟨text, -, rfl⟩ := Option.map_eq_some_iff.1 found'
  have parts := octetSpread_take lines before
  simp only
  omega

-- A later line starts behind the line feed of an earlier one.
theorem stop_lt_start (found : (build lines).get? first = some record)
    (found' : (build lines).get? last = some other) (before : first < last) :
    record.stop < other.start := by
  have stop := stop_eq found
  have start := start_eq found'
  have parts := octetSpread_take lines (show first + 1 ≤ last from before)
  omega

theorem stop_le_octets (found : (build lines).get? first = some record) :
    record.stop ≤ (Text.joinLines lines).octets := by
  have stop := stop_eq found
  have some_line : lines ≠ [] := by
    rintro rfl
    simp [get?_build] at found
  have whole := Text.octets_joinLines some_line
  have parts : octetSpread (lines.take (first + 1)) + octetSpread (lines.drop (first + 1)) =
      octetSpread lines := by
    rw [← Text.octetSpread_append, List.take_append_drop]
  omega

theorem slice?_lines (found : (build lines).get? first = some record)
    (found' : (build lines).get? last = some other) (before : first ≤ last) :
    (Text.joinLines lines).slice? record.start other.stop =
      some (Text.joinLines ((lines.drop first).take (last + 1 - first))) := by
  have start := start_eq found
  have stop := stop_eq found'
  have parts := octetSpread_take lines (show first ≤ last + 1 by omega)
  have some_line : (lines.drop first).take (last + 1 - first) ≠ [] := by
    rw [get?_build] at found
    obtain ⟨text, here, -⟩ := Option.map_eq_some_iff.1 found
    have within := (List.getElem?_eq_some_iff.1 here).1
    rw [← List.length_pos_iff, List.length_take, List.length_drop]
    omega
  have length := Text.octets_joinLines some_line
  -- Before the slice each line is followed by its line feed, behind the slice it is preceded by it.
  have split : Text.joinLines lines =
      (lines.take first).flatMap (· ++ ['\n']) ++
        Text.joinLines ((lines.drop first).take (last + 1 - first)) ++
        ((lines.drop first).drop (last + 1 - first)).flatMap ('\n' :: ·) := by
    rw [List.append_assoc, ← Text.joinLines_append_of_left some_line, List.take_append_drop,
      ← Text.joinLines_append_of_right, List.take_append_drop]
    intro none
    rw [none] at some_line
    exact some_line List.take_nil
  have ends : other.stop = (Text.octets ((lines.take first).flatMap (· ++ ['\n']))) +
      (Text.joinLines ((lines.drop first).take (last + 1 - first))).octets := by
    rw [Text.octets_flatMap_feed]
    omega
  rw [split, start, ← Text.octets_flatMap_feed, ends]
  exact Text.slice?_append _ _ _

/-! Ranges. -/

theorem octetRange_eq_ok {index : LineIndex} {range octets : Interval}
    (found : index.octetRange range = .ok octets) :
    ∃ first last, index.get? range.start = some first ∧ index.get? (range.stop - 1) = some last ∧
      range.start < range.stop ∧ octets = ⟨first.start, last.stop⟩ := by
  unfold octetRange at found
  by_cases none : range.isEmpty = true
  · simp [none, bind, Except.bind, throw, throwThe, MonadExceptOf.throw] at found
  · simp only [none, Bool.false_eq_true, if_false, bind, Except.bind, pure, Except.pure, record]
      at found
    cases here : index.get? range.start with
    | none => simp [here] at found
    | some first =>
      cases there : index.get? (range.stop - 1) with
      | none => simp [here, there] at found
      | some last =>
        simp only [here, there, Except.ok.injEq] at found
        rw [Interval.isEmpty_iff, Nat.not_le] at none
        exact ⟨first, last, rfl, rfl, none, found.symm⟩

theorem exists_record {line : Nat} (inside : line < lines.length) :
    ∃ record, (build lines).get? line = some record ∧ (build lines).record line = .ok record := by
  have found := get?_build lines line
  rw [List.getElem?_eq_getElem inside, Option.map_some] at found
  refine ⟨_, found, ?_⟩
  rw [LineIndex.record, found]

theorem exists_octetRange {run : Interval} (content : run.start < run.stop)
    (within : run.stop ≤ lines.length) :
    ∃ first last, (build lines).get? run.start = some first ∧
      (build lines).get? (run.stop - 1) = some last ∧
      (build lines).octetRange run = .ok ⟨first.start, last.stop⟩ := by
  obtain ⟨first, found, here⟩ := exists_record (Nat.lt_of_lt_of_le content within)
  obtain ⟨last, found', there⟩ := exists_record (show run.stop - 1 < lines.length by omega)
  have some_line : run.isEmpty = false := by
    simpa [Interval.isEmpty] using content
  refine ⟨first, last, found, found', ?_⟩
  simp only [octetRange, some_line, here, there]
  rfl

end Offsets.LineIndex

end Tracemark
