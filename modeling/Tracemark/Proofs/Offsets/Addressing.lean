import Tracemark.Proofs.Offsets.Records

/-! Addresses in a document.

A run of lines has the octets from the start of its first line to the end of its last one, and what
stands there in the document are the lines put back together. An octet has one line: the starts of the
lines increase, and the line feed between two lines is counted to the first of them, so no octet of the
document is left out and none is counted twice.
-/

set_option autoImplicit false

namespace Tracemark.Offsets.LineIndex

variable {lines : List Text} {run : Interval} {offset line : Nat}

/-! Lines to octets. -/

def refusal? (count : Nat) (run : Interval) : Option Failure :=
  if run.stop ≤ run.start then some (.noMapping run)
  else if count ≤ run.start then some (.lineOutOfRange run.start count)
  else if count < run.stop then some (.lineOutOfRange (run.stop - 1) count)
  else none

theorem record_of_outside (outside : lines.length ≤ line) :
    (build lines).record line = .error (.lineOutOfRange line lines.length) := by
  rw [record, get?_build, List.getElem?_eq_none outside, Option.map_none, size_build]

theorem octetRange_of_refusal {failure : Failure} (refused : refusal? lines.length run = some failure) :
    (build lines).octetRange run = .error failure := by
  unfold refusal? at refused
  split at refused
  · next empty =>
    cases refused
    rw [octetRange, Interval.isEmpty_iff.2 empty]
    rfl
  · next content =>
    have some_line : run.isEmpty = false := by simpa [Interval.isEmpty] using content
    split at refused
    · next outside =>
      cases refused
      simp only [octetRange, some_line, record_of_outside outside]
      rfl
    · next inside =>
      split at refused
      · next beyond =>
        cases refused
        obtain ⟨first, -, here⟩ := exists_record (Nat.lt_of_not_le inside)
        have outside : lines.length ≤ run.stop - 1 := by omega
        simp only [octetRange, some_line, here, record_of_outside outside]
        rfl
      · cases refused

theorem text?_of_accepted (accepted : refusal? lines.length run = none) :
    ∃ octets, (build lines).octetRange run = .ok octets ∧ (build lines).text? octets =
      some (Text.joinLines ((lines.drop run.start).take run.length)) := by
  obtain ⟨content, within⟩ : run.start < run.stop ∧ run.stop ≤ lines.length := by
    unfold refusal? at accepted
    split_ifs at accepted
    omega
  obtain ⟨first, last, here, there, range⟩ := exists_octetRange content within
  refine ⟨_, range, ?_⟩
  have slice := slice?_lines here there (Nat.le_sub_one_of_lt content)
  rwa [Nat.sub_add_cancel (Nat.zero_lt_of_lt content)] at slice

/-! Octets to lines. -/

/-- An octet falls on a line or on the line feed that ends it. -/
def Holds (index : LineIndex) (line offset : Nat) : Prop :=
  ∃ record, index.get? line = some record ∧ record.start ≤ offset ∧ offset ≤ record.stop

theorem documentLength_build (lines : List Text) :
    (build lines).documentLength = (build lines).document.octets := by
  by_cases none : lines = []
  · subst none
    rfl
  · have some_line : 0 < lines.length := List.length_pos_iff.2 none
    obtain ⟨last, found, -⟩ := exists_record (show lines.length - 1 < lines.length by omega)
    have final : (build lines).records.getLast? = some last := by
      rw [List.getLast?_eq_getElem?]
      change (build lines).get? ((build lines).size - 1) = some last
      rwa [size_build]
    have stop := stop_eq found
    rw [Nat.sub_add_cancel some_line, List.take_length, ← Text.octets_joinLines none] at stop
    rw [documentLength, final]
    exact Nat.succ.inj stop

theorem lt_length_takeWhile_iff {start : Nat} :
    line < ((recordsFrom start lines).takeWhile (·.start ≤ offset)).length ↔
      ∃ record, (recordsFrom start lines)[line]? = some record ∧ record.start ≤ offset := by
  induction lines generalizing start line with
  | nil => simp [recordsFrom]
  | cons text rest ih =>
    by_cases before : start ≤ offset
    · rw [recordsFrom, List.takeWhile_cons_of_pos (by simpa using before), List.length_cons]
      cases line with
      | zero => simp [before]
      | succ line => rw [Nat.add_lt_add_iff_right, ih, List.getElem?_cons_succ]
    · have later : ∀ record, (recordsFrom start (text :: rest))[line]? = some record →
          start ≤ record.start := by
        intro record found
        rw [getElem?_recordsFrom] at found
        obtain ⟨_, -, rfl⟩ := Option.map_eq_some_iff.1 found
        exact Nat.le_add_right _ _
      constructor
      · intro counted
        rw [recordsFrom, List.takeWhile_cons_of_neg (by simpa using before)] at counted
        cases counted
      · rintro ⟨record, found, started⟩
        exact absurd (Nat.le_trans (later record found) started) before

theorem Holds.eq {other : Nat} (holds : (build lines).Holds line offset)
    (holds' : (build lines).Holds other offset) : line = other := by
  obtain ⟨record, found, start, stop⟩ := holds
  obtain ⟨record', found', start', stop'⟩ := holds'
  rcases Nat.lt_trichotomy line other with before | same | behind
  · have apart := stop_lt_start found found' before
    omega
  · exact same
  · have apart := stop_lt_start found' found behind
    omega

theorem Holds.within (holds : (build lines).Holds line offset) :
    lines ≠ [] ∧ offset ≤ (build lines).documentLength := by
  obtain ⟨record, found, -, stop⟩ := holds
  constructor
  · rintro rfl
    cases found
  · rw [documentLength_build]
    exact Nat.le_trans stop (stop_le_octets found)

theorem exists_lineAt? (some_line : lines ≠ []) (within : offset ≤ (build lines).documentLength) :
    ∃ line, (build lines).lineAt? offset = some line := by
  obtain ⟨first, found, -⟩ := exists_record (List.length_pos_iff.2 some_line)
  have start : first.start = 0 := start_eq found
  have counted : 0 < ((build lines).records.takeWhile (·.start ≤ offset)).length :=
    lt_length_takeWhile_iff.2 ⟨first, found, start ▸ Nat.zero_le offset⟩
  obtain ⟨line, count⟩ := Nat.exists_eq_add_of_lt counted
  refine ⟨line, ?_⟩
  rw [lineAt?, if_neg (Nat.not_lt.2 within), count, Nat.zero_add]

theorem holds_of_lineAt? (found : (build lines).lineAt? offset = some line) :
    (build lines).Holds line offset := by
  unfold lineAt? at found
  split at found
  · cases found
  · next within =>
    split at found
    · cases found
    · next count counted =>
      cases found
      obtain ⟨record, here, start⟩ := lt_length_takeWhile_iff.1 (counted ▸ Nat.lt_succ_self line)
      refine ⟨record, here, start, ?_⟩
      -- Behind the line there is a line that starts too late, or nothing at all.
      have stop := stop_eq here
      by_cases last : line + 1 < lines.length
      · obtain ⟨next, there, -⟩ := exists_record last
        have uncounted : ¬next.start ≤ offset := fun started =>
          Nat.lt_irrefl _ (counted ▸ lt_length_takeWhile_iff.2 ⟨next, there, started⟩)
        have start' := start_eq there
        omega
      · have some_line : lines ≠ [] := by
          rintro rfl
          cases here
        rw [List.take_of_length_le (Nat.le_of_not_lt last), ← Text.octets_joinLines some_line] at stop
        rw [documentLength_build] at within
        exact Nat.succ.inj stop ▸ Nat.not_lt.1 within

theorem lineAt?_eq_some_iff :
    (build lines).lineAt? offset = some line ↔ (build lines).Holds line offset := by
  constructor
  · exact holds_of_lineAt?
  · intro holds
    obtain ⟨some_line, within⟩ := holds.within
    obtain ⟨other, found⟩ := exists_lineAt? some_line within
    rw [found, (holds_of_lineAt? found).eq holds]

/-- An index addresses its document. A run of lines is refused for the first reason there is, and
otherwise has the octets at which its lines stand, put back together. An octet has the one line on which
it falls, and none only where there are no lines or where the document has ended. -/
theorem build_addresses (lines : List Text) :
    (∀ run : Interval,
      match refusal? lines.length run with
      | some failure => (build lines).octetRange run = .error failure
      | none => ∃ octets, (build lines).octetRange run = .ok octets ∧
        (build lines).text? octets =
          some (Text.joinLines ((lines.drop run.start).take run.length))) ∧
    (build lines).documentLength = (build lines).document.octets ∧
    (∀ offset line,
      (build lines).lineAt? offset = some line ↔ (build lines).Holds line offset) ∧
    ∀ offset,
      if lines ≠ [] ∧ offset ≤ (build lines).documentLength then
        ∃! line, (build lines).Holds line offset
      else (build lines).lineAt? offset = none := by
  refine ⟨fun run => ?_, documentLength_build lines, fun _ _ => lineAt?_eq_some_iff, fun offset => ?_⟩
  · cases refused : refusal? lines.length run with
    | some failure => exact octetRange_of_refusal refused
    | none => exact text?_of_accepted refused
  · split
    · next inside =>
      obtain ⟨line, found⟩ := exists_lineAt? inside.1 inside.2
      have holds := holds_of_lineAt? found
      exact ⟨line, holds, fun other holds' => holds'.eq holds⟩
    · next outside =>
      rw [Option.eq_none_iff_forall_ne_some]
      intro line found
      exact outside (holds_of_lineAt? found).within

end Tracemark.Offsets.LineIndex
