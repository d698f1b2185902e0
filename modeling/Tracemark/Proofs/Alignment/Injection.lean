import Mathlib.Data.List.SplitBy
import Tracemark.Proofs.Alignment.Hull
import Tracemark.Proofs.Alignment.Identity

/-! Lines put into a document.

Lines with content whose keys the document does not have are put in at one place. Under either strategy
the script keeps the lines before that place, takes the new ones out, and keeps the lines behind it. So a
run of mutated lines comes from the source lines that it contains, and a run of new lines from nowhere.
-/

set_option autoImplicit false

namespace Tracemark.Alignment

open EditScript (Fills bare bare_eq_false_iff compact compact_cons_cons compact_cons_congr
  compact_cons_of_bare compact_cons_of_not_bare compact_of_parted)

def EditScript.injection (front count back : Nat) : EditScript :=
  [⟨.equal, ⟨0, front⟩, ⟨0, front⟩⟩, ⟨.delete, ⟨front, front⟩, ⟨front, front + count⟩⟩,
    ⟨.equal, ⟨front, front + back⟩, ⟨front + count, front + count + back⟩⟩].filter (!bare ·)

theorem EditScript.injection_eq (front back : Nat) {count : Nat} (content : 0 < count) :
    injection front count back =
      [(⟨.equal, ⟨0, front⟩, ⟨0, front⟩⟩ : EditOp)].filter (!bare ·) ++
        [⟨.delete, ⟨front, front⟩, ⟨front, front + count⟩⟩] ++
        [(⟨.equal, ⟨front, front + back⟩, ⟨front + count, front + count + back⟩⟩ : EditOp)].filter
          (!bare ·) := by
  have kept : [(⟨.delete, ⟨front, front⟩, ⟨front, front + count⟩⟩ : EditOp)].filter (!bare ·) =
      [⟨.delete, ⟨front, front⟩, ⟨front, front + count⟩⟩] := by
    simp [bare, Interval.isEmpty, content]
  rw [← kept, ← List.filter_append, ← List.filter_append]
  rfl

/-- The source line that a mutated line is, once `count` lines were put in before line `place`. -/
def sourceLine? (place count line : Nat) : Option Nat :=
  if line < place then some line else if line < place + count then none else some (line - count)

/-! The diff. -/

section

variable {α : Type} [DecidableEq α] {front fresh back old new : List α}

theorem commonPrefix_of_foreign (some_entry : fresh ≠ []) (foreign : ∀ entry ∈ fresh, entry ∉ new) :
    commonPrefix (fresh ++ old) new = 0 := by
  obtain ⟨entry, rest, rfl⟩ := List.exists_cons_of_ne_nil some_entry
  cases new with
  | nil => rfl
  | cons other later =>
    have apart : entry ≠ other := fun same =>
      foreign entry List.mem_cons_self (same ▸ List.mem_cons_self)
    rw [List.cons_append, commonPrefix, if_neg apart]

theorem commonSuffix_append (fresh back : List α) :
    commonSuffix (fresh ++ back) back = back.length := by
  have same := commonPrefix_append back.reverse fresh.reverse []
  rw [List.append_nil, commonPrefix_nil, List.length_reverse] at same
  rw [commonSuffix, List.reverse_append, same, Nat.add_zero]

theorem shortestPath_injection (depth : Nat) (some_entry : fresh ≠ [])
    (foreign : ∀ entry ∈ fresh, entry ∉ front ++ back) :
    shortestPath (depth + 1) 0 0 (front ++ fresh ++ back) (front ++ back) =
      Step.run .equal 0 0 front.length ++ [⟨.delete, front.length, front.length, fresh.length⟩] ++
        Step.run .equal (front.length + fresh.length) front.length back.length := by
  have foreign' : ∀ entry ∈ fresh, entry ∉ back := fun entry member known =>
    foreign entry member (List.mem_append_right _ known)
  have head : commonPrefix (front ++ fresh ++ back) (front ++ back) = front.length := by
    rw [List.append_assoc, commonPrefix_append, commonPrefix_of_foreign some_entry foreign',
      Nat.add_zero]
  have oldRest : (front ++ fresh ++ back).drop front.length = fresh ++ back := by
    rw [List.append_assoc, List.drop_left]
  have oldCore : (fresh ++ back).take
      ((front ++ fresh ++ back).length - front.length - back.length) = fresh := by
    have length : (front ++ fresh ++ back).length - front.length - back.length = fresh.length := by
      simp only [List.length_append]
      omega
    rw [length, List.take_left]
  have newCore : back.take ((front ++ back).length - front.length - back.length) = [] := by
    simp
  obtain ⟨entry, rest, rfl⟩ := List.exists_cons_of_ne_nil some_entry
  simp only [shortestPath, head, oldRest, List.drop_left, commonSuffix_append, oldCore, newCore]
  simp [Step.run]

/-! Deletions between equal lines have nowhere to slide. -/

/-- Steps that keep some lines and steps that delete some take turns. -/
structure Steady (steps : List Step) : Prop where
  kinds : ∀ step ∈ steps, step.change = .equal ∧ step.size ≠ 0 ∨ step.change = .delete
  turns : steps.IsChain fun step next => step.change ≠ next.change

variable {change : Change} {before after : List Step} {here : Step} {rounds : Nat}

omit [DecidableEq α] in
theorem newPart_of_deletion (deleted : here.change = .delete) : here.newPart new = [] := by
  simp [Step.newPart, deleted]

theorem slideUp_deletion (deleted : here.change = .delete)
    (kept : ∀ above ∈ before.head?, above.change = .equal ∧ above.size ≠ 0) :
    Cursor.slideUp old new rounds ⟨before, here, after⟩ = ⟨before, here, after⟩ := by
  cases rounds with
  | zero => rfl
  | succ rounds =>
    cases before with
    | nil => rfl
    | cons above before =>
      obtain ⟨equal, filled⟩ := kept above rfl
      have none : commonSuffix (above.oldPart old) (here.newPart new) = 0 := by
        rw [newPart_of_deletion deleted]
        exact commonPrefix_nil _
      rw [Cursor.slideUp, if_pos equal, none]
      exact if_neg filled

theorem slideDown_deletion (deleted : here.change = .delete)
    (kept : ∀ below ∈ after.head?, below.change = .equal ∧ below.size ≠ 0) :
    Cursor.slideDown old new rounds ⟨before, here, after⟩ = ⟨before, here, after⟩ := by
  cases rounds with
  | zero => rfl
  | succ rounds =>
    cases after with
    | nil => rfl
    | cons below after =>
      obtain ⟨equal, filled⟩ := kept below rfl
      have none : commonPrefix (below.oldPart old) (here.newPart new) = 0 := by
        rw [newPart_of_deletion deleted]
        exact commonPrefix_nil _
      rw [Cursor.slideDown, if_pos equal, none]
      exact if_neg filled

theorem settleAll_of_still (still : ∀ front here back, before.reverse ++ after = front ++ here :: back →
      here.change = change → Cursor.settle old new ⟨front.reverse, here, back⟩ =
        ⟨front.reverse, here, back⟩) :
    settleAll old new change rounds before after = before.reverse ++ after := by
  induction after generalizing rounds before with
  | nil => simp [settleAll]
  | cons here after ih =>
    cases rounds with
    | zero => rfl
    | succ rounds =>
      have moved : (here :: before).reverse ++ after = before.reverse ++ here :: after := by simp
      have later := @ih (here :: before) rounds (moved ▸ still)
      unfold settleAll
      split
      · next same =>
        have settled := still before.reverse here after rfl same
        rw [List.reverse_reverse] at settled
        simp only [settled]
        exact later.trans moved
      · exact later.trans moved

theorem tidy_of_steady {steps : List Step} (steady : Steady steps) : tidy old new steps = steps := by
  have deletions : settleAll old new .delete (weight steps) [] steps = steps := by
    refine settleAll_of_still fun front here back parted deleted => ?_
    rw [List.reverse_nil, List.nil_append] at parted
    obtain ⟨kinds, turns⟩ := parted ▸ steady
    -- What stands beside a deletion is no deletion, so it keeps lines.
    have kept {step : Step} (member : step ∈ front ++ here :: back)
        (apart : step.change ≠ here.change) : step.change = .equal ∧ step.size ≠ 0 :=
      (kinds step member).resolve_right fun same => apart (same.trans deleted.symm)
    obtain ⟨-, later, meets⟩ := List.isChain_append.1 turns
    have above : ∀ above ∈ front.reverse.head?, above.change = .equal ∧ above.size ≠ 0 := by
      intro above head
      rw [List.head?_reverse] at head
      exact kept (List.mem_append_left _ (List.mem_of_getLast? head)) (meets above head here rfl)
    have below : ∀ below ∈ back.head?, below.change = .equal ∧ below.size ≠ 0 := by
      intro below head
      have apart := List.IsChain.rel_head? later head
      exact kept (by simp [List.mem_of_head? head]) apart.symm
    rw [Cursor.settle, slideUp_deletion deleted above]
    exact slideDown_deletion deleted below
  have insertions : settleAll old new .insert (weight steps) [] steps = steps := by
    refine settleAll_of_still fun front here back parted inserted => ?_
    have kind := steady.kinds here (by rw [← List.nil_append steps, ← List.reverse_nil, parted]; simp)
    rw [inserted] at kind
    rcases kind with ⟨other, -⟩ | other <;> cases other
  rw [tidy]
  simp only [deletions]
  exact insertions

omit [DecidableEq α] in
theorem steady_injection (front count back : Nat) :
    Steady (Step.run .equal 0 0 front ++ [⟨.delete, front, front, count⟩] ++
      Step.run .equal (front + count) front back) := by
  have kept {old new size : Nat} {step : Step} (member : step ∈ Step.run .equal old new size) :
      step.change = .equal ∧ step.size ≠ 0 := by
    unfold Step.run at member
    split at member
    · cases member
    · next filled =>
      rw [List.mem_singleton.1 member]
      exact ⟨rfl, filled⟩
  constructor
  · intro step member
    rcases List.mem_append.1 member with before | behind
    · rcases List.mem_append.1 before with front | here
      · exact .inl (kept front)
      · exact .inr (congrArg Step.change (List.mem_singleton.1 here))
    · exact .inl (kept behind)
  · unfold Step.run
    split <;> split <;> simp

omit [DecidableEq α] in
theorem regroup_of_steady {steps : List Step} (steady : Steady steps) :
    regroup steps = steps.filterMap fun step => operation? [step] := by
  have single : steps.splitBy (fun step next => (step.change == .equal) == (next.change == .equal)) =
      steps.map ([·]) := by
    rw [List.splitBy_eq_iff]
    refine ⟨(List.flatMap_singleton' steps).symm, by simp, by simp, ?_⟩
    rw [List.isChain_map]
    refine steady.turns.imp_of_mem_imp fun step next member member' apart => ?_
    refine ⟨List.cons_ne_nil _ _, List.cons_ne_nil _ _, ?_⟩
    rw [List.getLast_singleton, List.head_singleton]
    rcases steady.kinds step member with ⟨kind, -⟩ | kind <;>
      rcases steady.kinds next member' with ⟨kind', -⟩ | kind' <;> rw [kind, kind'] at apart ⊢
    · exact absurd rfl apart
    · rfl
    · rfl
    · exact absurd rfl apart
  rw [regroup, single, List.filterMap_map]
  rfl

omit [DecidableEq α] in
theorem filterMap_run (old new size : Nat) :
    (Step.run .equal old new size).filterMap (fun step => operation? [step]) =
      [(⟨.equal, ⟨new, new + size⟩, ⟨old, old + size⟩⟩ : EditOp)].filter (!EditScript.bare ·) := by
  unfold Step.run
  split
  · next none => simp [none, bare, Interval.isEmpty]
  · next some =>
    have kept : bare ⟨.equal, ⟨new, new + size⟩, ⟨old, old + size⟩⟩ = false :=
      bare_eq_false_iff.2 (.inl (Nat.lt_add_of_pos_right (Nat.pos_of_ne_zero some)))
    rw [List.filter_cons_of_pos (by simp [kept])]
    rfl

theorem diff_injection (some_entry : fresh ≠ []) (foreign : ∀ entry ∈ fresh, entry ∉ front ++ back) :
    diff (front ++ back) (front ++ fresh ++ back) =
      .injection front.length fresh.length back.length := by
  have content : 0 < fresh.length := List.length_pos_iff.2 some_entry
  have steady := steady_injection front.length fresh.length back.length
  have deletion : [(⟨.delete, front.length, front.length, fresh.length⟩ : Step)].filterMap
      (fun step => operation? [step]) = [⟨.delete, ⟨front.length, front.length⟩,
        ⟨front.length, front.length + fresh.length⟩⟩] := rfl
  rw [diff, shortestPath_injection _ some_entry foreign, tidy_of_steady steady,
    regroup_of_steady steady, List.filterMap_append, List.filterMap_append, filterMap_run,
    filterMap_run, deletion, EditScript.injection_eq _ _ content, Nat.zero_add]

end

/-- What two sequences share at their heads and ends is kept, and new entries between are taken out by
one deletion. -/
def Differ.TakesOut (differ : Differ) : Prop :=
  ∀ front fresh back : List Text, fresh ≠ [] → (∀ key ∈ fresh, key ∉ front ++ back) →
    differ.script (front ++ back) (front ++ fresh ++ back) =
      .injection front.length fresh.length back.length

theorem Differ.takesOut_shortest : shortest.TakesOut :=
  fun _ _ _ some_key foreign => diff_injection some_key foreign

/-! The scan forward. -/

section

variable {fresh remaining : List Text}

theorem compact_bindLines_foreign (cursor line : Nat) (rest : List Text)
    (foreign : ∀ key ∈ fresh, key ≠ [] ∧ key ∉ remaining) :
    (bindLines cursor line remaining (fresh ++ rest)).compact =
      compact (⟨.delete, ⟨cursor, cursor⟩, ⟨line, line + fresh.length⟩⟩ ::
        bindLines cursor (line + fresh.length) remaining rest) := by
  induction fresh generalizing line with
  | nil => rw [compact_cons_of_bare (by simp [bare, Interval.isEmpty])]; rfl
  | cons key keys ih =>
    obtain ⟨⟨content, unknown⟩, foreign⟩ := List.forall_mem_cons.1 foreign
    have some : bare ⟨.delete, ⟨cursor, cursor⟩, ⟨line, line + 1⟩⟩ = false :=
      bare_eq_false_iff.2 (.inr (Nat.lt_succ_self line))
    have missing : skipped? key remaining = none := by
      rw [skipped?, if_neg content, List.findIdx?_eq_none_iff]
      intro other member
      exact decide_eq_false fun same => unknown (same ▸ member)
    rw [List.cons_append, bindLines, missing]
    simp only
    rw [compact_cons_of_not_bare some, ih _ foreign, ← compact_cons_of_not_bare some,
      compact_cons_cons (by rfl) ⟨by simp, by simp⟩ (by rfl) (by rfl) some]
    simp only [EditOp.extendTo, List.length_cons, Nat.add_assoc, Nat.add_comm 1]

end

/-! Both strategies. -/

namespace EditScript

variable {script : EditScript} {front count back line place : Nat}

theorem parted_injection (front back : Nat) (content : 0 < count) :
    Parted (injection front count back) := by
  rw [injection_eq front back content]
  unfold Parted
  simp only [List.filter_cons, List.filter_nil]
  split <;> split <;> simp

theorem demoteBlankAnchors_injection (lines : List Text) (front back : Nat) (content : 0 < count) :
    demoteBlankAnchors lines (injection front count back) = injection front count back := by
  rw [injection_eq front back content]
  simp only [List.filter_cons, List.filter_nil]
  split <;> split <;> simp [demoteBlankAnchors, foldBlankRuns, absorb, EditOp.isBlankRun]

theorem exact_injection (front count back : Nat) : (injection front count back).Exact := by
  intro op member
  have listed := (List.mem_filter.1 member).1
  simp only [List.mem_cons, List.not_mem_nil, or_false] at listed
  rcases listed with rfl | rfl | rfl
  · exact .inl rfl
  · exact .inr rfl
  · exact .inl rfl

theorem binds_injection_iff : (injection front count back).Binds line place ↔
    line < front + count + back ∧ sourceLine? front count line = some place := by
  constructor
  · rintro ⟨op, member, equal, holds, rfl⟩
    have listed := (List.mem_filter.1 member).1
    rw [Interval.mem_iff] at holds
    simp only [List.mem_cons, List.not_mem_nil, or_false] at listed
    rcases listed with rfl | rfl | rfl
    · simp only [sourceLine?, EditOp.counterpart] at holds ⊢
      rw [if_pos holds.2]
      exact ⟨by omega, congrArg some (by omega)⟩
    · cases equal
    · simp only [sourceLine?, EditOp.counterpart] at holds ⊢
      rw [if_neg (by omega), if_neg (by omega)]
      exact ⟨by omega, congrArg some (by omega)⟩
  · rintro ⟨within, same⟩
    unfold sourceLine? at same
    split at same
    · next before =>
      cases same
      refine ⟨⟨.equal, ⟨0, front⟩, ⟨0, front⟩⟩, ?_, rfl, ⟨Nat.zero_le _, before⟩,
        by simp [EditOp.counterpart]⟩
      refine List.mem_filter.2 ⟨by simp, ?_⟩
      rw [Bool.not_eq_true', bare_eq_false_iff]
      exact .inl (Nat.zero_lt_of_lt before)
    · split at same
      · cases same
      · next behind =>
        cases same
        refine ⟨⟨.equal, ⟨front, front + back⟩, ⟨front + count, front + count + back⟩⟩, ?_, rfl,
          ⟨Nat.le_of_not_lt behind, within⟩, ?_⟩
        · refine List.mem_filter.2 ⟨by simp, ?_⟩
          rw [Bool.not_eq_true', bare_eq_false_iff]
          simp only
          omega
        · simp only [EditOp.counterpart]
          omega

end EditScript

theorem sequential_injection {front fresh back : List Text} (some_line : fresh ≠ [])
    (foreign : ∀ key ∈ fresh, key ≠ [] ∧ key ∉ front ++ back) :
    sequential (front ++ back) (front ++ fresh ++ back) =
      .injection front.length fresh.length back.length := by
  have foreign' : ∀ key ∈ fresh, key ≠ [] ∧ key ∉ back := fun key member =>
    ⟨(foreign key member).1, fun known => (foreign key member).2 (List.mem_append_right _ known)⟩
  have content : 0 < fresh.length := List.length_pos_iff.2 some_line
  have parted := EditScript.parted_injection front.length back.length content
  rw [sequential, List.append_assoc, compact_bindLines_kept, Nat.zero_add]
  refine (compact_cons_congr _ ?_).trans (compact_of_parted parted)
  rw [compact_bindLines_foreign _ _ _ foreign']
  exact compact_cons_congr _ (compact_bindLines_self _ _ _)

namespace RestoreMap

variable {differ : Differ} {strategy : Strategy}

/-- Under either strategy the new lines are taken out and all others kept. -/
theorem align_injection (takes : strategy = .diff → differ.TakesOut) {front fresh back : List Text}
    (some_line : fresh ≠ [])
    (foreign : ∀ line ∈ fresh, line.isBlank = false ∧ lineKey line ∉ (front ++ back).map lineKey) :
    (align strategy (front ++ back) (front ++ fresh ++ back) differ).script =
      .injection front.length fresh.length back.length := by
  have some_key : fresh.map lineKey ≠ [] := by simpa using some_line
  have content : 0 < fresh.length := List.length_pos_iff.2 some_line
  have foreign' : ∀ key ∈ fresh.map lineKey,
      key ≠ [] ∧ key ∉ front.map lineKey ++ back.map lineKey := by
    intro key member
    obtain ⟨line, listed, rfl⟩ := List.mem_map.1 member
    rw [← List.map_append]
    exact ⟨mt lineKey_eq_nil_iff.1 (by simp [(foreign line listed).1]), (foreign line listed).2⟩
  have lengths : EditScript.injection (front.map lineKey).length (fresh.map lineKey).length
      (back.map lineKey).length = .injection front.length fresh.length back.length := by
    simp only [List.length_map]
  rw [← lengths]
  cases strategy with
  | diff =>
    have raw := takes rfl _ _ _ some_key fun key member => (foreign' key member).2
    change (differ.script _ _).demoteBlankAnchors _ = _
    simp only [List.map_append]
    rw [raw]
    exact EditScript.demoteBlankAnchors_injection _ _ _ (by simpa using content)
  | sequential =>
    have raw := sequential_injection some_key foreign'
    change sequential _ _ = _
    simp only [List.map_append]
    exact raw

/-- Once lines with content that the source does not have were put in at one place, a run of mutated
lines is located exactly at the hull of the source lines that it contains. A run of new lines has no
mapping. -/
theorem locate_injection (takes : strategy = .diff → differ.TakesOut) {source fresh : List Text}
    {place : Nat} (inside : place ≤ source.length) (some_line : fresh ≠ [])
    (foreign : ∀ line ∈ fresh, line.isBlank = false ∧ lineKey line ∉ source.map lineKey) :
    let mutated := source.take place ++ fresh ++ source.drop place
    let map := align strategy source mutated differ
    ∀ lines : Interval,
      (lines.stop ≤ mutated.length →
        (∃ line ∈ lines, ∃ origin, sourceLine? place fresh.length line = some origin) →
        ∃ location, map.locate lines = .ok location ∧
          Hull (fun origin => ∃ line ∈ lines, sourceLine? place fresh.length line = some origin)
            location.source ∧ location.startAccurate = true ∧ location.endAccurate = true) ∧
      (place ≤ lines.start → lines.stop ≤ place + fresh.length →
        map.locate lines = .error (.noMapping lines)) := by
  intro mutated map lines
  have foreign' : ∀ line ∈ fresh, line.isBlank = false ∧
      lineKey line ∉ (source.take place ++ source.drop place).map lineKey := by
    rwa [List.take_append_drop]
  have script (strategy : Strategy) (takes : strategy = .diff → differ.TakesOut) :
      (align strategy source mutated differ).script =
        .injection place fresh.length (source.length - place) := by
    have same := align_injection takes some_line foreign'
    rwa [List.take_append_drop, List.length_take_of_le inside, List.length_drop] at same
  have length : mutated.length = place + fresh.length + (source.length - place) := by
    simp only [mutated, List.length_append, List.length_take_of_le inside, List.length_drop]
  have fills : Fills map.script ⟨0, source.length⟩ ⟨0, mutated.length⟩ := by
    rw [script strategy takes, ← script .sequential nofun]
    exact fills_align nofun
  have exact : map.script.Exact := by
    rw [script strategy takes]
    exact EditScript.exact_injection _ _ _
  have binds_iff (line origin : Nat) : map.script.Binds line origin ↔
      line < mutated.length ∧ sourceLine? place fresh.length line = some origin := by
    rw [script strategy takes, EditScript.binds_injection_iff, length]
  constructor
  · rintro within ⟨line, member, origin, same⟩
    have bound {line : Nat} (member : line ∈ lines) : line < mutated.length :=
      Nat.lt_of_lt_of_le member.2 within
    obtain ⟨location, found, hull, accurate⟩ := exists_locate_of_exact fills exact within
      ⟨line, member, origin, (binds_iff _ _).2 ⟨bound member, same⟩⟩
    refine ⟨location, found, hull.congr fun origin => ?_, accurate⟩
    refine exists_congr fun line => and_congr_right fun member => ?_
    rw [binds_iff, and_iff_right (bound member)]
  · intro from' to'
    rw [locate_eq_error_iff fills]
    refine .inr fun line member kept => ?_
    obtain ⟨origin, binds⟩ := exact.kept_iff.1 kept
    have same := ((binds_iff _ _).1 binds).2
    rw [Interval.mem_iff] at member
    rw [sourceLine?, if_neg (by omega), if_pos (by omega)] at same
    cases same

/-- Two new lines between two blank ones of a document in which one line comes twice. -/
theorem locate_injection_parted :
    let source : List Text := [['a'], [], [' '], ['a'], ['b']]
    let fresh : List Text := [['X'], ['Y', '\r']]
    let mutated := source.take 2 ++ fresh ++ source.drop 2
    let map := align .diff source mutated
    2 ≤ source.length ∧ fresh ≠ [] ∧
      (∀ line ∈ fresh, line.isBlank = false ∧ lineKey line ∉ source.map lineKey) ∧
      (∃ location, map.locate ⟨1, 6⟩ = .ok location ∧
        Hull (fun origin => ∃ line ∈ (⟨1, 6⟩ : Interval), sourceLine? 2 2 line = some origin)
          location.source ∧ location.startAccurate = true ∧ location.endAccurate = true ∧
        location.source = ⟨1, 4⟩) ∧
      map.locate ⟨2, 4⟩ = .error (.noMapping ⟨2, 4⟩) := by
  intro source fresh mutated map
  have foreign : ∀ line ∈ fresh, line.isBlank = false ∧ lineKey line ∉ source.map lineKey := by
    decide +kernel
  have takes (_ : Strategy.diff = .diff) : Differ.shortest.TakesOut := Differ.takesOut_shortest
  have located := locate_injection takes (by decide : 2 ≤ source.length) (List.cons_ne_nil _ _) foreign
  obtain ⟨location, found, hull, accurate, accurate'⟩ :=
    (located ⟨1, 6⟩).1 (by decide) ⟨1, by decide, 1, rfl⟩
  have found' : map.locate ⟨1, 6⟩ = .ok ⟨⟨1, 4⟩, true, true, ⟨1, 2⟩⟩ := by decide +kernel
  cases found.symm.trans found'
  exact ⟨by decide, List.cons_ne_nil _ _, foreign, ⟨_, found, hull, accurate, accurate', rfl⟩,
    (located ⟨2, 4⟩).2 (by decide) (by decide)⟩

end RestoreMap

end Tracemark.Alignment
