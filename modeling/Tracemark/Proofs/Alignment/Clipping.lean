import Tracemark.Proofs.Alignment.Location

/-! Injected lines at the edges of a run.

A mutated line is injected when it stands in a deletion, and kept when it stands in equal lines or in a
replacement. Under a script that fills both sides, every mutated line is one or the other, and stands
in one operation. What is left of a run once its edges are clipped starts with its first line that was
not injected and ends with its last.
-/

set_option autoImplicit false

namespace Tracemark.Alignment

namespace EditScript

def Injected (script : EditScript) (line : Nat) : Prop :=
  ∃ op ∈ script, op.kind = .delete ∧ line ∈ op.mutated

/-- The line stands in equal lines or in a replacement. -/
def Kept (script : EditScript) (line : Nat) : Prop := ∃ op ∈ script, op.anchors line = true

structure FirstKept (script : EditScript) (lines : Interval) (line : Nat) : Prop where
  mem : line ∈ lines
  kept : ¬script.Injected line
  clipped : ∀ earlier ∈ lines, earlier < line → script.Injected earlier

structure LastKept (script : EditScript) (lines : Interval) (line : Nat) : Prop where
  mem : line ∈ lines
  kept : ¬script.Injected line
  clipped : ∀ later ∈ lines, line < later → script.Injected later

theorem FirstKept.eq {script : EditScript} {lines : Interval} {line other : Nat}
    (first : script.FirstKept lines line) (first' : script.FirstKept lines other) : line = other := by
  rcases Nat.lt_trichotomy line other with before | same | behind
  · exact absurd (first'.clipped line first.mem before) first.kept
  · exact same
  · exact absurd (first.clipped other first'.mem behind) first'.kept

theorem LastKept.eq {script : EditScript} {lines : Interval} {line other : Nat}
    (last : script.LastKept lines line) (last' : script.LastKept lines other) : line = other := by
  rcases Nat.lt_trichotomy line other with before | same | behind
  · exact absurd (last.clipped other last'.mem before) last'.kept
  · exact same
  · exact absurd (last'.clipped line last.mem behind) last.kept

variable {script : EditScript} {op other : EditOp} {source mutated lines : Interval}
  {line stop rounds : Nat}

/-! The operation of a line. -/

theorem Fills.exists_mem (fills : Fills script source mutated) (inside : line ∈ mutated) :
    ∃ op ∈ script, line ∈ op.mutated := by
  rw [Interval.mem_iff] at inside
  induction script generalizing source mutated with
  | nil =>
    have none := (fills_nil_iff.1 fills).2
    omega
  | cons op rest ih =>
    obtain ⟨-, start, -, -, fills⟩ := fills_cons_iff.1 fills
    rcases Nat.lt_or_ge line op.mutated.stop with here | beyond
    · exact ⟨op, List.mem_cons_self, by rw [Interval.mem_iff]; omega⟩
    · obtain ⟨other, member, holds⟩ := ih fills ⟨beyond, inside.2⟩
      exact ⟨other, List.mem_cons_of_mem _ member, holds⟩

theorem Fills.eq_or_precedes (fills : Fills script source mutated) (member : op ∈ script)
    (member' : other ∈ script) : op = other ∨ op.Precedes other ∨ other.Precedes op := by
  obtain ⟨before, after, rfl⟩ := List.append_of_mem member
  obtain ⟨earlier, later⟩ := fills.precedes
  rcases List.mem_append.1 member' with front | back
  · exact .inr (.inr (earlier other front))
  · rcases List.mem_cons.1 back with same | back
    · exact .inl same.symm
    · exact .inr (.inl (later other back))

theorem Fills.eq_of_mem (fills : Fills script source mutated) (member : op ∈ script)
    (member' : other ∈ script) (inside : line ∈ op.mutated) (inside' : line ∈ other.mutated) :
    op = other := by
  rw [Interval.mem_iff] at inside inside'
  rcases fills.eq_or_precedes member member' with same | ahead | behind
  · exact same
  · have := ahead.mutated
    omega
  · have := behind.mutated
    omega

theorem Fills.not_injected_iff (fills : Fills script source mutated) (inside : line ∈ mutated) :
    ¬script.Injected line ↔ script.Kept line := by
  obtain ⟨op, member, holds⟩ := fills.exists_mem inside
  constructor
  · intro kept
    refine ⟨op, member, EditOp.anchors_iff.2 ⟨?_, holds⟩⟩
    have fit := fills.fits member
    rw [EditOp.fits_iff (fills.forward op member)] at fit
    cases kind : op.kind with
    | equal => exact .inl rfl
    | replace => exact .inr rfl
    | delete => exact absurd ⟨op, member, kind, holds⟩ kept
    | insert =>
      rw [kind] at fit
      rw [Interval.mem_iff] at holds
      omega
  · rintro ⟨anchor, listed, anchored⟩ ⟨gone, listed', deleted, holds'⟩
    obtain ⟨kind, holds⟩ := EditOp.anchors_iff.1 anchored
    cases fills.eq_of_mem listed listed' holds holds'
    rw [deleted] at kind
    rcases kind with kind | kind <;> cases kind

theorem exists_dropWhile_eq (kept : script.Kept line) :
    ∃ op after, script.dropWhile (!·.anchors line) = op :: after ∧ op ∈ script ∧
      op.anchors line = true := by
  cases behind : script.dropWhile (!·.anchors line) with
  | nil =>
    obtain ⟨op, member, anchored⟩ := kept
    have none := List.dropWhile_eq_nil_iff.1 behind op member
    rw [anchored] at none
    cases none
  | cons op after =>
    refine ⟨op, after, rfl, (List.dropWhile_sublist _).subset (behind ▸ List.mem_cons_self), ?_⟩
    have head := List.head?_dropWhile_not (!·.anchors line) script
    simpa [behind] using head

/-! Clipping. -/

open RestoreMap (skipInjected dropInjected)

-- A round that leaves an operation behind has fewer of them ahead.
theorem countP_lt_countP {ahead still : EditOp → Bool} (member : op ∈ script)
    (fewer : ∀ other, still other = true → ahead other = true) (was : ahead op = true)
    (passed : still op = false) : script.countP still < script.countP ahead := by
  obtain ⟨before, after, rfl⟩ := List.append_of_mem member
  have front := List.countP_mono_left fun other (_ : other ∈ before) => fewer other
  have back := List.countP_mono_left fun other (_ : other ∈ after) => fewer other
  rw [List.countP_append, List.countP_append, List.countP_cons_of_pos was,
    List.countP_cons_of_neg (by simp [passed])]
  omega

theorem skipInjected_spec (enough : script.countP (line < ·.mutated.stop) ≤ rounds) :
    ¬script.Injected (skipInjected script rounds line) ∧
      ∀ skipped, line ≤ skipped → skipped < skipInjected script rounds line →
        script.Injected skipped := by
  induction rounds generalizing line with
  | zero =>
    refine ⟨?_, fun skipped from' to' => absurd to' (Nat.not_lt.2 from')⟩
    rintro ⟨op, member, -, -, beyond⟩
    have none := List.countP_eq_zero.1 (Nat.le_zero.1 enough) op member
    exact none (decide_eq_true beyond)
  | succ rounds ih =>
    unfold skipInjected
    split
    · next op found =>
      have member := List.mem_of_find?_eq_some found
      have inside := List.find?_some found
      simp only [Bool.and_eq_true, decide_eq_true_eq, Interval.mem_iff] at inside
      obtain ⟨deleted, start, beyond⟩ := inside
      have fewer : script.countP (op.mutated.stop < ·.mutated.stop) <
          script.countP (line < ·.mutated.stop) := by
        refine countP_lt_countP member (fun other further => ?_) (decide_eq_true beyond) (by simp)
        exact decide_eq_true (Nat.lt_trans beyond (of_decide_eq_true further))
      obtain ⟨kept, clipped⟩ := ih (Nat.le_of_lt_succ (Nat.lt_of_lt_of_le fewer enough))
      refine ⟨kept, fun skipped from' to' => ?_⟩
      rcases Nat.lt_or_ge skipped op.mutated.stop with here | later
      · exact ⟨op, member, deleted, Nat.le_trans start from', here⟩
      · exact clipped skipped later to'
    · next none =>
      rw [List.find?_eq_none] at none
      refine ⟨?_, fun skipped from' to' => absurd to' (Nat.not_lt.2 from')⟩
      rintro ⟨op, member, deleted, inside⟩
      exact none op member (by simp [deleted, inside])

theorem dropInjected_spec (enough : script.countP (·.mutated.start < stop) ≤ rounds) :
    (∀ last, last + 1 = dropInjected script rounds stop → ¬script.Injected last) ∧
      ∀ dropped, dropInjected script rounds stop ≤ dropped → dropped < stop →
        script.Injected dropped := by
  induction rounds generalizing stop with
  | zero =>
    refine ⟨?_, fun dropped from' to' => absurd to' (Nat.not_lt.2 from')⟩
    rintro last rfl ⟨op, member, -, start, -⟩
    have none := List.countP_eq_zero.1 (Nat.le_zero.1 enough) op member
    exact none (decide_eq_true (Nat.lt_succ_of_le start))
  | succ rounds ih =>
    unfold dropInjected
    split
    · next op found =>
      have member := List.mem_of_find?_eq_some found
      have inside := List.find?_some found
      simp only [Bool.and_eq_true, decide_eq_true_eq] at inside
      obtain ⟨⟨deleted, start⟩, beyond⟩ := inside
      have fewer : script.countP (·.mutated.start < op.mutated.start) <
          script.countP (·.mutated.start < stop) := by
        refine countP_lt_countP member (fun other further => ?_) (decide_eq_true start) (by simp)
        exact decide_eq_true (Nat.lt_trans (of_decide_eq_true further) start)
      obtain ⟨kept, clipped⟩ := ih (Nat.le_of_lt_succ (Nat.lt_of_lt_of_le fewer enough))
      refine ⟨kept, fun dropped from' to' => ?_⟩
      rcases Nat.lt_or_ge dropped op.mutated.start with earlier | here
      · exact clipped dropped from' earlier
      · exact ⟨op, member, deleted, here, Nat.lt_of_lt_of_le to' beyond⟩
    · next none =>
      rw [List.find?_eq_none] at none
      refine ⟨?_, fun dropped from' to' => absurd to' (Nat.not_lt.2 from')⟩
      rintro last rfl ⟨op, member, deleted, start, stop⟩
      exact none op member (by simp [deleted, Nat.lt_succ_of_le start, Nat.succ_le_of_lt stop])

def clip (script : EditScript) (lines : Interval) : Interval :=
  ⟨skipInjected script script.length lines.start, dropInjected script script.length lines.stop⟩

theorem clip_start : ¬script.Injected (script.clip lines).start ∧
    ∀ skipped, lines.start ≤ skipped → skipped < (script.clip lines).start →
      script.Injected skipped :=
  skipInjected_spec List.countP_le_length

theorem clip_stop : (∀ last, last + 1 = (script.clip lines).stop → ¬script.Injected last) ∧
    ∀ dropped, (script.clip lines).stop ≤ dropped → dropped < lines.stop →
      script.Injected dropped :=
  dropInjected_spec List.countP_le_length

theorem firstKept_clip (some_line : (script.clip lines).start < (script.clip lines).stop) :
    script.FirstKept lines (script.clip lines).start := by
  have within := RestoreMap.dropInjected_le script script.length lines.stop
  exact ⟨⟨RestoreMap.le_skipInjected _ _ _, Nat.lt_of_lt_of_le some_line within⟩, clip_start.1,
    fun earlier inside => clip_start.2 earlier inside.1⟩

theorem lastKept_clip (some_line : (script.clip lines).start < (script.clip lines).stop) :
    script.LastKept lines ((script.clip lines).stop - 1) := by
  have within := RestoreMap.le_skipInjected script script.length lines.start
  have within' := RestoreMap.dropInjected_le script script.length lines.stop
  have behind : (script.clip lines).stop - 1 + 1 = (script.clip lines).stop := by omega
  refine ⟨?_, clip_stop.1 _ behind, fun later inside beyond => ?_⟩
  · rw [Interval.mem_iff]
    simp only [clip] at some_line ⊢
    omega
  · exact clip_stop.2 later (Nat.le_of_pred_lt beyond) inside.2

theorem clip_eq_self (first : ¬script.Injected lines.start)
    (last : ∀ line, line + 1 = lines.stop → ¬script.Injected line) : script.clip lines = lines := by
  have starts : (script.clip lines).start = lines.start := by
    by_contra moved
    have forward := RestoreMap.le_skipInjected script script.length lines.start
    exact first (clip_start.2 lines.start (Nat.le_refl _) (Nat.lt_of_le_of_ne forward (Ne.symm moved)))
  have stops : (script.clip lines).stop = lines.stop := by
    by_contra moved
    have back := Nat.lt_of_le_of_ne (RestoreMap.dropInjected_le script script.length lines.stop) moved
    have some_line := Nat.sub_add_cancel (Nat.one_le_of_lt back)
    exact last _ some_line (clip_stop.2 _ (Nat.le_sub_one_of_lt back) (by omega))
  obtain ⟨start, stop⟩ := lines
  exact congrArg₂ Interval.mk starts stops

theorem clip_empty_iff :
    (script.clip lines).stop ≤ (script.clip lines).start ↔ ∀ line ∈ lines, script.Injected line := by
  constructor
  · intro none line inside
    rcases Nat.lt_or_ge line (script.clip lines).start with before | behind
    · exact clip_start.2 line inside.1 before
    · exact clip_stop.2 line (Nat.le_trans none behind) inside.2
  · intro all
    by_contra some_line
    have first := firstKept_clip (Nat.not_le.1 some_line)
    exact first.kept (all _ first.mem)

end EditScript

namespace RestoreMap

variable {map : RestoreMap} {lines : Interval} {location : Location} {start stop : Nat}
  {first last : EditOp} {before after : EditScript}

theorem Located.firstKept
    (located : Located map lines location start stop first last before after) :
    map.script.FirstKept lines start := by
  obtain rfl := located.start_eq
  obtain rfl := located.stop_eq
  exact EditScript.firstKept_clip located.start_lt_stop

theorem Located.lastKept
    (located : Located map lines location start stop first last before after) :
    map.script.LastKept lines (stop - 1) := by
  obtain rfl := located.start_eq
  obtain rfl := located.stop_eq
  exact EditScript.lastKept_clip located.start_lt_stop

end RestoreMap

end Tracemark.Alignment
