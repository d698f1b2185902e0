import Tracemark.Proofs.Alignment.Location

/-! Lines that nothing has changed.

When each line has kept its key, either strategy makes one operation of equal lines, and a run of
mutated lines is located at the same run of source lines.
-/

set_option autoImplicit false

namespace Tracemark.Alignment

def EditScript.whole (count : Nat) : EditScript := [⟨.equal, ⟨0, count⟩, ⟨0, count⟩⟩]

/-- Two equal sequences are reported as one equal operation. -/
def Differ.Keeps (differ : Differ) : Prop :=
  ∀ keys : List Text, keys ≠ [] → differ.script keys keys = .whole keys.length

section

variable {α : Type} [DecidableEq α]

theorem commonPrefix_nil (old : List α) : commonPrefix old [] = 0 := by
  cases old <;> rfl

theorem commonPrefix_append (front old new : List α) :
    commonPrefix (front ++ old) (front ++ new) = front.length + commonPrefix old new := by
  induction front with
  | nil => simp
  | cons entry rest ih =>
    rw [List.cons_append, List.cons_append, commonPrefix, if_pos rfl, ih, List.length_cons]
    omega

theorem commonPrefix_self (entries : List α) : commonPrefix entries entries = entries.length := by
  have same := commonPrefix_append entries [] []
  rwa [List.append_nil, commonPrefix_nil, Nat.add_zero] at same

theorem shortestPath_self (depth : Nat) {entries : List α} (some_entry : entries ≠ []) :
    shortestPath (depth + 1) 0 0 entries entries = [⟨.equal, 0, 0, entries.length⟩] := by
  have length := List.length_pos_iff.2 some_entry
  have none : commonSuffix ([] : List α) [] = 0 := rfl
  simp only [shortestPath, commonPrefix_self, List.drop_length, none, Nat.sub_self, List.take_nil,
    Step.run, List.length_nil, if_true, List.append_nil]
  rw [if_neg (Nat.ne_of_gt length)]

theorem tidy_keep (old new : List α) (size : Nat) :
    tidy old new [⟨.equal, 0, 0, size⟩] = [⟨.equal, 0, 0, size⟩] := by
  simp [tidy, settleAll, weight]

theorem diff_self {entries : List α} (some_entry : entries ≠ []) :
    diff entries entries = .whole entries.length := by
  rw [diff, shortestPath_self _ some_entry, tidy_keep]
  change [[(⟨.equal, 0, 0, entries.length⟩ : Step)]].filterMap operation? = _
  simp [operation?, gather, EditScript.whole]

end

theorem Differ.keeps_shortest : shortest.Keeps := fun _ some_key => diff_self some_key

theorem sequential_self {entries : List Text} (some_entry : entries ≠ []) :
    sequential entries entries = .whole entries.length := by
  have content : 0 < entries.length := List.length_pos_iff.2 some_entry
  have kept : EditScript.bare ⟨.equal, ⟨0, entries.length⟩, ⟨0, entries.length⟩⟩ = false :=
    EditScript.bare_eq_false_iff.2 (.inl content)
  rw [sequential, compact_bindLines_self, Nat.zero_add, EditScript.compact_cons_of_not_bare kept]
  rfl

namespace RestoreMap

variable {differ : Differ} {strategy : Strategy} {map : RestoreMap} {lines : Interval} {count : Nat}

theorem align_self (keeps : strategy = .diff → differ.Keeps) {source mutated : List Text}
    (some_line : source ≠ []) (same : mutated.map lineKey = source.map lineKey) :
    (align strategy source mutated differ).script = .whole source.length := by
  have some_key : source.map lineKey ≠ [] := by simpa using some_line
  cases strategy with
  | diff =>
    change (differ.script (source.map lineKey) (mutated.map lineKey)).demoteBlankAnchors _ = _
    rw [same, keeps rfl _ some_key, List.length_map]
    rfl
  | sequential =>
    change sequential (source.map lineKey) (mutated.map lineKey) = _
    rw [same, sequential_self some_key, List.length_map]

theorem locate_whole (script : map.script = .whole count) (content : lines.start < lines.stop)
    (within : lines.stop ≤ count) :
    map.locate lines = .ok ⟨lines, true, true, ⟨lines.start, lines.start + 1⟩⟩ := by
  have start : skipInjected map.script map.script.length lines.start = lines.start := by
    rw [script]
    simp [EditScript.whole, skipInjected]
  have stop : dropInjected map.script map.script.length lines.stop = lines.stop := by
    rw [script]
    simp [EditScript.whole, dropInjected]
  have before : lines.stop - 1 < count := by omega
  have first : lines.start < count := by omega
  unfold locate
  simp only [start, stop]
  rw [script]
  simp [EditScript.whole, EditOp.anchors, pure, Except.pure,
    Nat.not_le_of_lt content, before, first, endOfDropped]

end RestoreMap

end Tracemark.Alignment
