import Tracemark.Proofs.Dispatch.Turns
import Tracemark.Proofs.Offsets.Bounds

/-! Portions: the blocks of a document that have content, with the lines they claim.

When every portion is traced to its own lines, the marks of a rendered document follow from the
children that each portion created. A child bears the mark of the portion that created it, and the last
child is moved on by each portion that creates none, until the next child is there.
-/

set_option autoImplicit false

namespace Tracemark.Offsets

def LineIndex.octets (index : LineIndex) (lines : Interval) : Interval :=
  (index.octetRange lines).toOption.getD ⟨0, 0⟩

structure Portion where
  lines : Interval
  turn : Turn

def portions (line : Nat) : List Turn → List Portion
  | [] => []
  | turn :: rest =>
    ((contentRun? line turn.block.lines).map fun lines => ⟨lines, turn⟩).toList ++
      portions (line + turn.block.lines.length + 1) rest

namespace Portion

def created (portion : Portion) : List NodeId := portion.turn.created

def origin (index : LineIndex) (portion : Portion) : Origin :=
  ⟨(index.octets portion.lines).start, (index.octets portion.lines).stop, true, true⟩

def record (index : LineIndex) (debug : Bool) (marks : NodeId → Option Mark) (portion : Portion) :
    NodeId → Option Mark :=
  recorded debug (portion.origin index) (portion.turn.after.tree.childrenOf Tree.root).getLast?
    portion.created marks

end Portion

def silent (later : List Portion) : List Portion := later.takeWhile (·.created.isEmpty)

/-- The lines with which a child ends: those of the last portion that went on with it. -/
def closing (portion : Portion) (node : NodeId) (later : List Portion) : Interval :=
  if portion.created.getLast? = some node then
    ((silent later).getLast?.map (·.lines)).getD portion.lines
  else portion.lines

/-- Portions that follow one another while the children of the root go from one list to another. -/
inductive Chained : List NodeId → List Portion → List NodeId → Prop
  | nil {old : List NodeId} : Chained old [] old
  | cons {old final : List NodeId} {portion : Portion} {rest : List Portion} :
    portion.turn.before.tree.childrenOf Tree.root = old →
    portion.turn.after.tree.childrenOf Tree.root = old ++ portion.created →
    Chained (old ++ portion.created) rest final → Chained old (portion :: rest) final

variable {index : LineIndex} {debug : Bool} {marks : NodeId → Option Mark} {node : NodeId}
  {old final : List NodeId} {portion : Portion} {earlier later rest : List Portion}

theorem Chained.final_eq (chained : Chained old rest final) :
    final = old ++ rest.flatMap (·.created) := by
  induction chained with
  | nil => simp
  | cons _ _ _ ih => rw [ih, List.flatMap_cons, List.append_assoc]

theorem Chained.split (chained : Chained old (earlier ++ later) final) :
    ∃ middle, Chained old earlier middle ∧ Chained middle later final := by
  induction earlier generalizing old with
  | nil => exact ⟨old, .nil, chained⟩
  | cons portion others ih =>
    cases chained with
    | cons before after chained =>
      obtain ⟨middle, front, back⟩ := ih chained
      exact ⟨middle, .cons before after front, back⟩

-- The children before a portion keep their marks, all but the last one when the portion creates
-- none.
theorem Portion.record_of_mem
    (after : portion.turn.after.tree.childrenOf Tree.root = old ++ portion.created)
    (distinct : (old ++ portion.created).Nodup) (member : node ∈ old) :
    portion.record index debug marks node =
      if portion.created = [] ∧ old.getLast? = some node then
        some (.moved debug (portion.origin index) (marks node))
      else marks node := by
  unfold Portion.record
  rw [after]
  cases made : portion.created with
  | nil =>
    rw [List.append_nil]
    cases atEnd : old.getLast? with
    | none => simp [recorded]
    | some last =>
      by_cases same : node = last
      · subst same
        simp [recorded]
      · have different : ¬last = node := fun same' => same same'.symm
        simp [recorded, Function.update_of_ne same, different]
  | cons first others =>
    have apart : node ∉ portion.created := fun new =>
      (List.nodup_append.1 distinct).2.2 node member node new rfl
    rw [made] at apart
    simp [recorded, apart]

theorem Portion.record_of_created (member : node ∈ portion.created) :
    portion.record index debug marks node = some (.made debug (portion.origin index)) := by
  unfold Portion.record
  cases made : portion.created with
  | nil =>
    rw [made] at member
    cases member
  | cons first others =>
    rw [made] at member
    exact if_pos member

theorem Chained.exists_mark (chained : Chained old rest final)
    (marked : ∀ node ∈ old, ∃ mark, marks node = some mark) :
    ∀ node ∈ final, ∃ mark, rest.foldl (Portion.record index debug) marks node = some mark := by
  induction chained generalizing marks with
  | nil => exact marked
  | @cons old final portion rest _ _ _ ih =>
    apply ih
    intro node member
    by_cases made : node ∈ portion.created
    · exact ⟨_, Portion.record_of_created made⟩
    · obtain ⟨mark, found⟩ := marked node ((List.mem_append.1 member).resolve_right made)
      unfold Portion.record
      cases fresh : portion.created with
      | nil =>
        cases (portion.turn.after.tree.childrenOf Tree.root).getLast? with
        | none => exact ⟨mark, found⟩
        | some last =>
          by_cases same : node = last
          · subst same
            exact ⟨_, Function.update_self _ _ _⟩
          · exact ⟨mark, (Function.update_of_ne same _ _).trans found⟩
      | cons first others =>
        rw [fresh] at made
        exact ⟨mark, (if_neg made).trans found⟩

theorem Chained.foldl_record (chained : Chained old rest final) (distinct : final.Nodup)
    (member : node ∈ old) :
    rest.foldl (Portion.record index debug) marks node =
      (if old.getLast? = some node then silent rest else []).foldl
        (fun mark portion => some (.moved debug (portion.origin index) mark)) (marks node) := by
  induction chained generalizing marks with
  | nil => split <;> rfl
  | @cons old final portion rest _ after chained ih =>
    have within : (old ++ portion.created).Nodup := by
      rw [chained.final_eq] at distinct
      exact (List.nodup_append.1 distinct).1
    rw [List.foldl_cons, ih distinct (List.mem_append_left _ member),
      Portion.record_of_mem after within member]
    unfold silent
    cases made : portion.created with
    | nil =>
      rw [List.append_nil, List.takeWhile_cons_of_pos (by simp [made])]
      by_cases last : old.getLast? = some node
      · simp [last]
      · simp [last]
    | cons first others =>
      -- The new children stand behind the node, which is moved on no more.
      have other : (old ++ first :: others).getLast? ≠ some node := by
        intro same
        rw [List.getLast?_append_of_ne_nil _ (List.cons_ne_nil _ _)] at same
        have new := List.mem_of_getLast? same
        rw [made] at within
        exact (List.nodup_append.1 within).2.2 node member node new rfl
      rw [List.takeWhile_cons_of_neg (by simp [made]), if_neg other, if_neg (by simp), ite_self]

-- Moving a mark on keeps its start and brings its stop to the last portion.
theorem exists_moved (index : LineIndex) (debug : Bool) (mark : Mark) (followers : List Portion) :
    ∃ result, followers.foldl (fun mark portion =>
        some (.moved debug (portion.origin index) mark)) (some mark) = some result ∧
      result.start = mark.start ∧ result.startAccurate = mark.startAccurate ∧
      result.stop =
        (followers.getLast?.map fun portion => (index.octets portion.lines).stop).getD mark.stop ∧
      (mark.endAccurate = (if debug then some true else none) →
        result.endAccurate = mark.endAccurate) := by
  induction followers generalizing mark with
  | nil => exact ⟨mark, rfl, rfl, rfl, rfl, fun _ => rfl⟩
  | cons portion rest ih =>
    obtain ⟨result, found, start, startAccurate, stop, endAccurate⟩ :=
      ih (.moved debug (portion.origin index) (some mark))
    refine ⟨result, found, start, startAccurate, ?_, fun flag => ?_⟩
    · rw [stop, List.getLast?_cons]
      cases rest.getLast? <;> rfl
    · have moved : (Mark.moved debug (portion.origin index) (some mark)).endAccurate =
          if debug then some true else none := by
        cases debug
        · exact flag
        · rfl
      rw [endAccurate moved, moved, flag]

theorem bounds_of_mem_portions {line : Nat} {turns : List Turn} (member : portion ∈ portions line turns) :
    line ≤ portion.lines.start ∧ portion.lines.start < portion.lines.stop := by
  induction turns generalizing line with
  | nil => cases member
  | cons turn rest ih =>
    rcases List.mem_append.1 member with here | there
    · obtain ⟨lines, found, rfl⟩ := Option.map_eq_some_iff.1 (Option.mem_toList.1 here)
      obtain ⟨start, content, -⟩ := bounds_of_contentRun? found
      exact ⟨start, content⟩
    · obtain ⟨start, content⟩ := ih there
      exact ⟨by omega, content⟩

theorem pairwise_portions (line : Nat) (turns : List Turn) :
    (portions line turns).Pairwise fun portion later => portion.lines.stop ≤ later.lines.start := by
  induction turns generalizing line with
  | nil => exact .nil
  | cons turn rest ih =>
    rw [portions, List.pairwise_append]
    refine ⟨?_, ih _, fun portion member later member' => ?_⟩
    · cases contentRun? line turn.block.lines with
      | none => exact .nil
      | some lines => exact List.pairwise_singleton _ _
    · obtain ⟨lines, found, rfl⟩ := Option.map_eq_some_iff.1 (Option.mem_toList.1 member)
      obtain ⟨-, -, stop⟩ := bounds_of_contentRun? found
      obtain ⟨start, -⟩ := bounds_of_mem_portions member'
      simp only
      omega

theorem Chained.exists_creator (chained : Chained old rest final) (member : node ∈ final)
    (new : node ∉ old) :
    ∃ earlier portion later, rest = earlier ++ portion :: later ∧ node ∈ portion.created := by
  rw [chained.final_eq, List.mem_append] at member
  obtain ⟨portion, listed, made⟩ := List.mem_flatMap.1 (member.resolve_left new)
  obtain ⟨earlier, later, rfl⟩ := List.append_of_mem listed
  exact ⟨earlier, portion, later, rfl, made⟩

end Tracemark.Offsets
