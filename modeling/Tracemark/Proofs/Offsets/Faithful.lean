import Tracemark.Proofs.Alignment.Identity
import Tracemark.Proofs.Offsets.Portions

/-! Lines that have kept their keys.

The tracker then has one operation of equal lines, so each portion is traced to its own lines and both
ends are accurate. The marks of the rendered document are those recorded of its portions.
-/

set_option autoImplicit false

namespace Tracemark.Offsets

open Tracemark.Alignment (EditScript RestoreMap lineKey)
open Tracemark.Tree (Extends)

variable {settings : Settings} {lines : List Text} {run : Interval} {line : Nat} {block : Text}
  {blocks : List Text} {before after : Session} {turns : List Turn} {tracker : Tracker}
  {marks : NodeId → Option Mark}

theorem LineIndex.exists_octets (content : run.start < run.stop) (within : run.stop ≤ lines.length) :
    ∃ first last, (build lines).get? run.start = some first ∧
      (build lines).get? (run.stop - 1) = some last ∧
      (build lines).octetRange run = .ok ((build lines).octets run) ∧
      (build lines).octets run = ⟨first.start, last.stop⟩ := by
  obtain ⟨first, last, here, there, range⟩ := exists_octetRange content within
  refine ⟨first, last, here, there, ?_, ?_⟩
  · rw [octets, range]
    rfl
  · rw [octets, range]
    rfl

structure Tracker.Faithful (lines : List Text) (tracker : Tracker) : Prop where
  index : tracker.index = .build lines
  script : ∃ restore, tracker.restoreMap? = some restore ∧ restore.script = .whole lines.length

theorem Tracker.Faithful.annotate (faithful : tracker.Faithful lines)
    (content : run.start < run.stop) (within : run.stop ≤ lines.length) :
    tracker.annotate run =
      .ok (⟨((LineIndex.build lines).octets run).start, ((LineIndex.build lines).octets run).stop,
        true, true⟩, tracker.use run) := by
  obtain ⟨index, restore, restored, script⟩ := faithful
  obtain ⟨first, last, -, -, range, same⟩ := LineIndex.exists_octets content within
  have located := RestoreMap.locate_whole script content within
  have placed : tracker.placed? ⟨run, true, true, ⟨run.start, run.start + 1⟩⟩ = some run :=
    placed?_of_accurate rfl
  rw [← index] at range
  unfold Tracker.annotate
  simp only [restored, located, placed, range, bind, Except.bind]
  rw [index]
  rfl

theorem Turned.eq_of_blank (turned : Turned settings line block before after)
    (blank : contentRun? line block.lines = none) : after = before := by
  cases turned with
  | blank _ => rfl
  | lost _ found _ _ =>
    rw [blank] at found
    cases found
  | placed _ found _ _ _ =>
    rw [blank] at found
    cases found

theorem Settings.isSome_document (settings : Settings) (tracker : Tracker) :
    (settings.stamper tracker).document.isSome = settings.debug := by
  unfold Settings.stamper
  cases settings.debug <;> rfl

theorem created_written {grown : Tree} {fresh : List NodeId} (parsed : Parsed before block grown)
    (ordered : before.tree.Ordered)
    (children : grown.childrenOf Tree.root = before.tree.childrenOf Tree.root ++ fresh)
    (stamper : Stamper) (origin : Origin) (tracker : Tracker) :
    Extends Tree.root before.tree (stamper.written grown Tree.root origin fresh) ∧
      Turn.created ⟨block, before,
        (before.setTree (stamper.written grown Tree.root origin fresh)).setTracker tracker⟩ =
          fresh := by
  have extended : Extends Tree.root before.tree (stamper.written grown Tree.root origin fresh) :=
    Stamper.extends_written (parsed.grows ordered).toExtends
  have same : (stamper.written grown Tree.root origin fresh).childrenOf Tree.root =
      before.tree.childrenOf Tree.root ++ fresh := by
    rw [Stamper.childrenOf_written, children]
  exact ⟨extended, Turn.created_eq same (extended.ordered.nodup_childrenOf Tree.root)⟩

theorem Turned.faithful (turned : Turned settings line block before after)
    (found : contentRun? line block.lines = some run) (within : run.stop ≤ lines.length)
    (tracked : before.tracker? = some tracker) (faithful : tracker.Faithful lines)
    (noted : Noted settings.attributeLead before.tree marks) :
    (∃ tracker', after.tracker? = some tracker' ∧ tracker'.Faithful lines) ∧
      Extends Tree.root before.tree after.tree ∧
      after.tree.childrenOf Tree.root =
        before.tree.childrenOf Tree.root ++ Turn.created ⟨block, before, after⟩ ∧
      Noted settings.attributeLead after.tree (Portion.record (.build lines) settings.debug marks
        ⟨run, ⟨block, before, after⟩⟩) := by
  obtain ⟨-, content, -⟩ := bounds_of_contentRun? found
  have own (tracker' : Tracker) (same : before.tracker? = some tracker') :
      (tracker'.claimed run).Faithful lines := by
    cases tracked.symm.trans same
    exact ⟨faithful.index, faithful.script⟩
  cases turned with
  | blank blank =>
    rw [contentRun?_eq_none_iff.2 blank] at found
    cases found
  | @lost tracker' run' grown failure tracked' found' _ lost =>
    cases found.symm.trans found'
    rw [(own tracker' tracked').annotate content within] at lost
    cases lost
  | @placed tracker' annotated run' grown origin fresh tracked' found' parsed placed children =>
    cases found.symm.trans found'
    rw [(own tracker' tracked').annotate content within] at placed
    obtain ⟨rfl, rfl⟩ := Prod.mk.inj (Except.ok.inj placed)
    cases tracked.symm.trans tracked'
    have new := parsed.bounds_of_fresh noted.ordered children
    have written := noted.written (parsed.grows noted.ordered) children
      (fun node member => (new node member).1) (settings.stamper tracker).document
      ⟨((LineIndex.build lines).octets run).start, ((LineIndex.build lines).octets run).stop, true,
        true⟩
    rw [settings.isSome_document] at written
    obtain ⟨extended, created⟩ :=
      created_written parsed noted.ordered children (settings.stamper tracker) _ _
    refine ⟨⟨_, Session.tracker?_setTracker _ _, faithful.index, faithful.script⟩, extended, ?_, ?_⟩
    · rw [created, ← children]
      exact Stamper.childrenOf_written Tree.root
    · unfold Portion.record Portion.created
      simp only
      rw [created]
      change Noted _ _ (recorded _ _ (Tree.childrenOf (Stamper.written _ _ _ _ _) Tree.root).getLast?
        _ _)
      rw [Stamper.childrenOf_written]
      exact written

theorem Followed.blocks_eq (followed : Followed settings line blocks before turns after) :
    turns.map (·.block) = blocks := by
  induction followed with
  | done => rfl
  | turn _ _ ih => rw [List.map_cons, ih]

/-- The marks after a run are those recorded of its portions. -/
theorem Followed.faithful (followed : Followed settings line blocks before turns after)
    (within : ∀ entry ∈ numberedBlocks line blocks, entry.1 < lines.length)
    (tracked : before.tracker? = some tracker) (faithful : tracker.Faithful lines)
    (noted : Noted settings.attributeLead before.tree marks) :
    Noted settings.attributeLead after.tree
        ((portions line turns).foldl (Portion.record (.build lines) settings.debug) marks) ∧
      Chained (before.tree.childrenOf Tree.root) (portions line turns)
        (after.tree.childrenOf Tree.root) ∧
      ∀ portion ∈ portions line turns, portion.lines.stop ≤ lines.length ∧
        portion.turn.before.tree.Ordered ∧
        Extends Tree.root portion.turn.before.tree portion.turn.after.tree := by
  induction followed generalizing tracker marks with
  | done => exact ⟨noted, .nil, by simp [portions]⟩
  | @turn line block rest before middle after turns turned followed ih =>
    have inRest : ∀ entry ∈ numberedBlocks (line + block.lines.length + 1) rest,
        entry.1 < lines.length := fun entry member => within entry (List.mem_append_right _ member)
    unfold portions
    simp only
    cases found : contentRun? line block.lines with
    | none =>
      have same := turned.eq_of_blank found
      subst same
      exact ih inRest tracked faithful noted
    | some run =>
      obtain ⟨first, last, -, atEnd, rfl⟩ := exists_ends_of_contentRun? found
      have bound : last.1 + 1 ≤ lines.length :=
        within last (List.mem_append_left _ (List.mem_of_getLast? atEnd))
      obtain ⟨⟨tracker', tracked', faithful'⟩, extended, children, noted'⟩ :=
        turned.faithful found bound tracked faithful noted
      obtain ⟨marked, chained, rest⟩ := ih inRest tracked' faithful' noted'
      rw [children] at chained
      refine ⟨marked, .cons rfl children chained, ?_⟩
      rw [Option.map_some, Option.toList_some, List.singleton_append, List.forall_mem_cons]
      exact ⟨⟨bound, noted.ordered, extended⟩, rest⟩

end Tracemark.Offsets
