import Mathlib.Data.List.Chain
import Tracemark.Alignment.BlankAnchor
import Tracemark.Proofs.Alignment.Script

/-! Folding blank runs.

A folded script fills the runs that the script fills, and its equal operations are those of the
script. It is settled: no blank run stands between two operations, and behind a replacement come equal
lines or nothing. Folding has nothing to do in a settled script.
-/

set_option autoImplicit false

namespace Tracemark.Alignment.EditScript

variable {script front middle middle' back done todo rest : EditScript} {op last next : EditOp}
  {source mutated : Interval} {lines : List Text}

theorem Fills.splice (fills : Fills (front ++ middle ++ back) source mutated)
    (same : ∀ {source mutated}, Fills middle source mutated → Fills middle' source mutated) :
    Fills (front ++ middle' ++ back) source mutated := by
  obtain ⟨line, line', first, second⟩ := fills_append_iff.1 fills
  obtain ⟨mark, mark', start, inner⟩ := fills_append_iff.1 first
  exact fills_append_iff.2
    ⟨line, line', fills_append_iff.2 ⟨mark, mark', start, same inner⟩, second⟩

theorem fills_extend (replaced : last.kind = .replace)
    (fills : Fills [last, op] source mutated) : Fills [last.extendTo op] source mutated := by
  obtain ⟨start, start', forward, fit, fills⟩ := fills_cons_iff.1 fills
  obtain ⟨meets, meets', forward', -, fills⟩ := fills_cons_iff.1 fills
  rw [EditOp.fits_iff forward, replaced] at fit
  simp only at meets meets' fit
  have source : last.source.stop ≤ op.source.stop := meets ▸ forward'.source
  have mutated : last.mutated.stop ≤ op.mutated.stop := meets' ▸ forward'.mutated
  have whole : (last.extendTo op).Forward :=
    ⟨Nat.le_trans forward.source source, Nat.le_trans forward.mutated mutated⟩
  have kind : (last.extendTo op).kind = .replace := replaced
  refine fills_cons_iff.2 ⟨start, start', whole, ?_, fills⟩
  rw [EditOp.fits_iff whole, kind]
  exact ⟨Nat.lt_of_lt_of_le fit.1 source, Nat.lt_of_lt_of_le fit.2 mutated⟩

theorem fills_absorb (fills : Fills (done.reverse ++ op :: rest) source mutated) :
    Fills ((absorb done op).reverse ++ rest) source mutated := by
  unfold absorb
  split
  · next last earlier =>
    rw [List.reverse_cons] at fills
    split
    · next both =>
      have parted : Fills (earlier.reverse ++ [last, op] ++ rest) source mutated := by
        simpa using fills
      rw [List.reverse_cons]
      exact parted.splice fun inner => fills_extend both.1 inner
    · simpa using fills
  · exact fills

theorem kind_eq_of_isBlankRun (blank : op.isBlankRun lines = true) : op.kind = .equal := by
  simp only [EditOp.isBlankRun, Bool.and_eq_true, decide_eq_true_eq] at blank
  exact blank.1

theorem fills_bridge (blank : op.isBlankRun lines = true)
    (fills : Fills [last, op, next] source mutated) : Fills [last.bridge next] source mutated := by
  have equal := kind_eq_of_isBlankRun blank
  obtain ⟨start, start', forward, -, fills⟩ := fills_cons_iff.1 fills
  obtain ⟨meets, meets', forward', fit, fills⟩ := fills_cons_iff.1 fills
  obtain ⟨joins, joins', forward'', -, fills⟩ := fills_cons_iff.1 fills
  rw [EditOp.fits_iff forward', equal] at fit
  simp only at meets meets' joins joins' fit
  have source := forward.source
  have mutated := forward.mutated
  have source' := forward''.source
  have mutated' := forward''.mutated
  -- The blank run has a line on both sides, so the bridge has one as well.
  have whole : (last.bridge next).Forward := by
    constructor <;> simp only [EditOp.bridge, EditOp.extendTo] <;> omega
  refine fills_cons_iff.2 ⟨start, start', whole, (EditOp.fits_iff whole).2 ?_, fills⟩
  change last.source.start < next.source.stop ∧ last.mutated.start < next.mutated.stop
  omega

theorem fills_foldBlankRuns (fills : Fills (done.reverse ++ todo) source mutated) :
    Fills (foldBlankRuns lines done todo) source mutated := by
  fun_induction foldBlankRuns lines done todo with
  | case1 done => simpa using fills
  | case2 done op =>
    have absorbed := fills_absorb fills
    rwa [List.append_nil] at absorbed
  | case3 op next rest ih => exact ih fills
  | case4 last earlier op next rest fold ih =>
    have parted : Fills (earlier.reverse ++ [last, op, next] ++ rest) source mutated := by
      simpa using fills
    apply ih
    rw [List.reverse_cons]
    exact parted.splice (fills_bridge fold.1)
  | case5 last earlier op next rest _ ih => exact ih (fills_absorb fills)

theorem fills_demoteBlankAnchors (fills : Fills script source mutated) :
    Fills (demoteBlankAnchors lines script) source mutated :=
  fills_foldBlankRuns fills

/-! Operations other than replacements. -/

theorem mem_of_mem_absorb (kept : op.kind ≠ .replace) (member : op ∈ absorb done next) :
    op ∈ done ∨ op = next := by
  unfold absorb at member
  split at member
  · next last earlier =>
    split at member
    · next both =>
      rcases List.mem_cons.1 member with rfl | before
      · exact absurd both.1 kept
      · exact .inl (List.mem_cons_of_mem _ before)
    · exact (List.mem_cons.1 member).symm
  · exact .inr (List.mem_singleton.1 member)

theorem mem_of_mem_foldBlankRuns (kept : op.kind ≠ .replace)
    (member : op ∈ foldBlankRuns lines done todo) : op ∈ done ∨ op ∈ todo := by
  fun_induction foldBlankRuns lines done todo with
  | case1 done => exact .inl (List.mem_reverse.1 member)
  | case2 done other =>
    rcases mem_of_mem_absorb kept (List.mem_reverse.1 member) with before | rfl
    · exact .inl before
    · exact .inr List.mem_cons_self
  | case3 other next rest ih =>
    rcases ih member with before | later
    · rw [List.mem_singleton.1 before]
      exact .inr List.mem_cons_self
    · exact .inr (List.mem_cons_of_mem _ later)
  | case4 last earlier other next rest _ ih =>
    rcases ih member with before | later
    · rcases List.mem_cons.1 before with rfl | before
      · exact absurd rfl kept
      · exact .inl (List.mem_cons_of_mem _ before)
    · exact .inr (List.mem_cons_of_mem _ (List.mem_cons_of_mem _ later))
  | case5 last earlier other next rest _ ih =>
    rcases ih member with before | later
    · rcases mem_of_mem_absorb kept before with before | rfl
      · exact .inl before
      · exact .inr List.mem_cons_self
    · exact .inr (List.mem_cons_of_mem _ later)

/-! Settled scripts. -/

/-- Blank runs stand at the ends only, and behind each replacement come equal lines. -/
structure Settled (lines : List Text) (script : EditScript) : Prop where
  followed : (script.map (·.kind)).IsChain fun kind later => kind = .replace → later = .equal
  outer : ∀ front op back, script = front ++ op :: back → op.isBlankRun lines = true →
    front = [] ∨ back = []

/-- What holds of the operations that are done, which are listed from the last on: of these only the
first may be a blank run. -/
structure Folded (lines : List Text) (done : EditScript) : Prop where
  followed : (done.map (·.kind)).IsChain fun kind earlier => earlier = .replace → kind = .equal
  content : ∀ op ∈ done.dropLast, op.isBlankRun lines = false

variable {earlier : EditScript}

theorem folded_singleton (op : EditOp) : Folded lines [op] :=
  ⟨.singleton _, fun _ member => absurd member List.not_mem_nil⟩

theorem Folded.push (folded : Folded lines (last :: earlier))
    (follows : last.kind = .replace → op.kind = .equal) (shown : op.isBlankRun lines = false) :
    Folded lines (op :: last :: earlier) where
  followed := .cons_cons follows folded.followed
  content := by
    rw [List.dropLast_cons_of_ne_nil (List.cons_ne_nil _ _)]
    exact List.forall_mem_cons.2 ⟨shown, folded.content⟩

theorem Folded.replace (folded : Folded lines (last :: earlier)) (edit : last.kind ≠ .equal)
    (replaced : op.kind = .replace) : Folded lines (op :: earlier) := by
  cases earlier with
  | nil => exact folded_singleton op
  | cons before earlier =>
    have single : before.kind ≠ .replace := fun other =>
      edit ((List.isChain_cons_cons.1 folded.followed).1 other)
    have shown : op.isBlankRun lines = false := by
      simp [EditOp.isBlankRun, replaced]
    obtain ⟨followed, content⟩ := folded
    rw [List.dropLast_cons_of_ne_nil (List.cons_ne_nil _ _), List.forall_mem_cons] at content
    have front : Folded lines (before :: earlier) :=
      ⟨(List.isChain_cons_cons.1 followed).2, content.2⟩
    exact front.push (fun other => absurd other single) shown

theorem Folded.absorb (folded : Folded lines (last :: earlier))
    (shown : op.isBlankRun lines = false) :
    Folded lines (EditScript.absorb (last :: earlier) op) := by
  unfold EditScript.absorb
  dsimp only
  split
  · next both => exact folded.replace (by rw [both.1]; decide) both.1
  · next apart => exact folded.push (fun replaced => by_contra fun edit => apart ⟨replaced, edit⟩) shown

theorem Folded.eq_nil_of_isBlankRun (folded : Folded lines done)
    (parted : done.reverse = front ++ op :: back) (blank : op.isBlankRun lines = true) :
    front = [] := by
  by_contra some_op
  have same : done = back.reverse ++ op :: front.reverse := by
    rw [← List.reverse_reverse done, parted]
    simp
  have inside : op ∈ done.dropLast := by
    rw [same, List.dropLast_append_cons, List.dropLast_cons_of_ne_nil (by simpa using some_op)]
    simp
  rw [folded.content op inside] at blank
  cases blank

theorem Folded.settled (folded : Folded lines done) : Settled lines done.reverse where
  followed := by
    rw [List.map_reverse, List.isChain_reverse]
    exact folded.followed
  outer _ _ _ parted blank := .inl (folded.eq_nil_of_isBlankRun parted blank)

-- The last operation may be a blank run as well.
theorem Folded.settled_push (folded : Folded lines (last :: earlier))
    (follows : last.kind = .replace → op.kind = .equal) :
    Settled lines (op :: last :: earlier).reverse where
  followed := by
    rw [List.map_reverse, List.isChain_reverse]
    exact .cons_cons follows folded.followed
  outer := by
    intro front other back parted blank
    rw [List.reverse_cons] at parted
    rcases List.eq_nil_or_concat' back with rfl | ⟨between, final, rfl⟩
    · exact .inr rfl
    · left
      rw [← List.cons_append, ← List.append_assoc] at parted
      have same := (List.append_inj' parted rfl).1
      exact folded.eq_nil_of_isBlankRun same blank

theorem settled_foldBlankRuns (folded : done ≠ [] → Folded lines done)
    (parted : (done.head?.toList ++ todo).IsChain fun op next =>
      op.kind = .equal → next.kind ≠ .equal) :
    Settled lines (foldBlankRuns lines done todo) := by
  fun_induction foldBlankRuns lines done todo with
  | case1 done =>
    cases done with
    | nil => exact ⟨.nil, by simp⟩
    | cons last earlier => exact (folded (List.cons_ne_nil _ _)).settled
  | case2 done op =>
    cases done with
    | nil => exact (folded_singleton op).settled
    | cons last earlier =>
      have folded := folded (List.cons_ne_nil _ _)
      unfold absorb
      dsimp only
      split
      · next both =>
        have merged : Folded lines (last.extendTo op :: earlier) :=
          folded.replace (by rw [both.1]; decide) both.1
        exact merged.settled
      · next apart =>
        exact folded.settled_push fun replaced => by_contra fun edit => apart ⟨replaced, edit⟩
  | case3 op next rest ih => exact ih (fun _ => folded_singleton op) parted
  | case4 last earlier op next rest fold ih =>
    have folded := folded (List.cons_ne_nil _ _)
    refine ih (fun _ => folded.replace fold.2.1 rfl) ?_
    simp only [List.head?_cons, Option.toList_some, List.singleton_append] at parted ⊢
    have rest := (List.isChain_cons_cons.1 (List.isChain_cons_cons.1 parted).2).2
    exact rest.tail.cons fun _ _ equal => nomatch equal
  | case5 last earlier op next rest keep ih =>
    have folded := folded (List.cons_ne_nil _ _)
    simp only [List.head?_cons, Option.toList_some, List.singleton_append] at parted
    obtain ⟨apart, later⟩ := List.isChain_cons_cons.1 parted
    obtain ⟨apart', rest⟩ := List.isChain_cons_cons.1 later
    -- A blank run here would stand between two edits.
    have shown : op.isBlankRun lines = false := by
      by_contra blank
      rw [Bool.not_eq_false] at blank
      have equal := kind_eq_of_isBlankRun blank
      exact keep ⟨blank, fun same => apart same equal, apart' equal⟩
    refine ih (fun _ => folded.absorb shown) ?_
    unfold absorb
    dsimp only
    split
    · next both =>
      exact rest.cons_cons fun equal => absurd (both.1.symm.trans equal) (by decide)
    · exact later

theorem settled_demoteBlankAnchors
    (parted : script.IsChain fun op next => op.kind = .equal → next.kind ≠ .equal) :
    Settled lines (demoteBlankAnchors lines script) :=
  settled_foldBlankRuns (fun some_op => absurd rfl some_op) parted

theorem absorb_of_followed
    (followed : ((op :: done).map (·.kind)).IsChain fun kind earlier =>
      earlier = .replace → kind = .equal) : absorb done op = op :: done := by
  cases done with
  | nil => rfl
  | cons last earlier =>
    have follows := (List.isChain_cons_cons.1 followed).1
    exact if_neg fun both => both.2 (follows both.1)

theorem foldBlankRuns_of_settled (settled : Settled lines (done.reverse ++ todo)) :
    foldBlankRuns lines done todo = done.reverse ++ todo := by
  -- Each operation is put behind those that are done as it is.
  have keep {op : EditOp} {done rest : EditScript}
      (settled : Settled lines (done.reverse ++ op :: rest)) : absorb done op = op :: done := by
    apply absorb_of_followed
    have moved : done.reverse ++ op :: rest = (op :: done).reverse ++ rest := by simp
    have followed := settled.followed
    rw [moved, List.map_append, List.map_reverse] at followed
    exact List.isChain_reverse.1 followed.left_of_append
  fun_induction foldBlankRuns lines done todo with
  | case1 done => rw [List.append_nil]
  | case2 done op => rw [keep settled, List.reverse_cons]
  | case3 op next rest ih => exact ih settled
  | case4 last earlier op next rest fold _ =>
    rcases settled.outer _ op (next :: rest) rfl fold.1 with none | none
    · simp at none
    · cases none
  | case5 last earlier op next rest _ ih =>
    rw [keep settled, List.reverse_cons, List.append_assoc] at ih
    rw [keep settled]
    exact ih settled

theorem demoteBlankAnchors_of_settled (settled : Settled lines script) :
    demoteBlankAnchors lines script = script :=
  foldBlankRuns_of_settled settled

/-- Folding a script that partitions both sides, and in which no two equal operations meet, gives such
a partition again. Its equal operations are operations of the script, blank runs among them stand at
the ends only, and folding once more changes nothing. -/
theorem demoteBlankAnchors_partition {source mutated : List Text} {script : EditScript}
    (partition : script.isPartition source.length mutated.length = true)
    (forward : ∀ op ∈ script, op.Forward) (pairs : script.PairsEqual source mutated)
    (parted : script.IsChain fun op next => op.kind = .equal → next.kind ≠ .equal) :
    (script.demoteBlankAnchors mutated).isPartition source.length mutated.length = true ∧
      (∀ op ∈ script.demoteBlankAnchors mutated, op.Forward) ∧
      (∀ op ∈ script.demoteBlankAnchors mutated, op.kind = .equal → op ∈ script) ∧
      (script.demoteBlankAnchors mutated).PairsEqual source mutated ∧
      (∀ front op back, script.demoteBlankAnchors mutated = front ++ op :: back →
        op.isBlankRun mutated = true → front = [] ∨ back = []) ∧
      (script.demoteBlankAnchors mutated).demoteBlankAnchors mutated =
        script.demoteBlankAnchors mutated := by
  have fills : Fills script ⟨0, source.length⟩ ⟨0, mutated.length⟩ := ⟨partition, forward⟩
  have folded : Fills (script.demoteBlankAnchors mutated) ⟨0, source.length⟩ ⟨0, mutated.length⟩ :=
    fills_demoteBlankAnchors fills
  have settled : Settled mutated (script.demoteBlankAnchors mutated) :=
    settled_demoteBlankAnchors parted
  have raw : ∀ op ∈ script.demoteBlankAnchors mutated, op.kind = .equal → op ∈ script := by
    intro op member equal
    have kept : op.kind ≠ .replace := by simp [equal]
    exact (mem_of_mem_foldBlankRuns kept member).resolve_left List.not_mem_nil
  refine ⟨folded.covers, folded.forward, raw, ?_, settled.outer,
    demoteBlankAnchors_of_settled settled⟩
  intro op member equal
  exact pairs op (raw op member equal) equal

/-- Two blank lines that stay between three rewritten ones: both are folded. -/
theorem demoteBlankAnchors_partition_chain :
    let source : List Text := [['a'], [], ['b'], [], ['c']]
    let mutated : List Text := [['x'], [], ['y'], [], ['z']]
    let script : EditScript :=
      [⟨.replace, ⟨0, 1⟩, ⟨0, 1⟩⟩, ⟨.equal, ⟨1, 2⟩, ⟨1, 2⟩⟩, ⟨.replace, ⟨2, 3⟩, ⟨2, 3⟩⟩,
        ⟨.equal, ⟨3, 4⟩, ⟨3, 4⟩⟩, ⟨.replace, ⟨4, 5⟩, ⟨4, 5⟩⟩]
    script.isPartition source.length mutated.length = true ∧ (∀ op ∈ script, op.Forward) ∧
      script.PairsEqual source mutated ∧
      script.IsChain (fun op next => op.kind = .equal → next.kind ≠ .equal) ∧
      (script.demoteBlankAnchors mutated).isPartition source.length mutated.length = true ∧
      (∀ op ∈ script.demoteBlankAnchors mutated, op.kind = .equal → op ∈ script) ∧
      script.demoteBlankAnchors mutated = [⟨.replace, ⟨0, 5⟩, ⟨0, 5⟩⟩] := by
  intro source mutated script
  have partition : script.isPartition source.length mutated.length = true := by decide
  have forward : ∀ op ∈ script, op.Forward := by
    simp only [script, List.forall_mem_cons]
    exact ⟨⟨by decide, by decide⟩, ⟨by decide, by decide⟩, ⟨by decide, by decide⟩,
      ⟨by decide, by decide⟩, ⟨by decide, by decide⟩, by simp⟩
  have pairs : script.PairsEqual source mutated := by
    unfold PairsEqual
    decide
  have parted : script.IsChain fun op next => op.kind = .equal → next.kind ≠ .equal := by decide
  obtain ⟨covered, -, raw, -⟩ := demoteBlankAnchors_partition partition forward pairs parted
  exact ⟨partition, forward, pairs, parted, covered, raw, by decide⟩

end Tracemark.Alignment.EditScript
