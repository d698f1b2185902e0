import Tracemark.Proofs.Offsets.Faithful
import Tracemark.Proofs.Offsets.Traced
import Tracemark.Proofs.Stage.Unbroken

/-! Documents whose lines have kept their keys.

Each child of the root then bears the octets of the lines it was made from, with both ends accurate.
-/

set_option autoImplicit false

namespace Tracemark.Offsets

open Tracemark.Alignment (Differ EditScript RestoreMap lineKey)

variable {differ : Differ} {settings : Settings} {between : List Stage} {compiler : Compiler}

def marksOf (settings : Settings) (source : Text) (turns : List Turn) : NodeId → Option Mark :=
  (portions 0 turns).foldl (Portion.record (.build source.lines) settings.debug) fun _ => none

structure Rendered (settings : Settings) (source : Text) (turns : List Turn) (session : Session) :
    Prop where
  noted : Noted settings.attributeLead session.tree (marksOf settings source turns)
  chained : Chained [] (portions 0 turns) (session.tree.childrenOf Tree.root)
  within : ∀ portion ∈ portions 0 turns, portion.lines.stop ≤ source.lines.length
  ordered : ∀ portion ∈ portions 0 turns, portion.turn.before.tree.Ordered
  extended : ∀ portion ∈ portions 0 turns,
    Tree.Extends Tree.root portion.turn.before.tree portion.turn.after.tree

theorem Traced.rendered (traced : Traced differ settings between compiler)
    (keeps : settings.strategy = .diff → differ.Keeps) (source : Text)
    (unbroken : Unbroken (preparedLines between source))
    (same : (preparedLines between source).map lineKey = source.lines.map lineKey) :
    ∃ turns session, compiler.turns source = .ok turns ∧ compiler.render source = .ok session ∧
      turns.map (·.block) = preparedBlocks between source ∧
      Rendered settings source turns session := by
  have length : (preparedLines between source).length = source.lines.length := by
    simpa using congrArg List.length same
  have some_line : source.lines ≠ [] := Text.lines_ne_nil source
  have bare := traced.staged.tree_startSession source
  have faithful : (startTracker differ settings between source).Faithful source.lines :=
    ⟨rfl, _, restoreMap?_startTracker source,
      RestoreMap.align_self keeps some_line same⟩
  have within : ∀ entry ∈ numberedBlocks 0 (preparedBlocks between source),
      entry.1 < source.lines.length := by
    intro entry member
    rw [preparedBlocks, ← numbered_joinLines unbroken] at member
    have below := lt_of_mem_numbered member
    omega
  have noted : Noted settings.attributeLead (startSession differ settings between source).tree
      fun _ => none := by
    rw [bare]
    exact noted_empty _
  obtain ⟨turns, session, ran, rendered, followed⟩ := traced.followed source unbroken
  obtain ⟨marked, chained, facts⟩ :=
    followed.faithful within (Session.tracker?_setTracker _ _) faithful noted
  rw [bare] at chained
  exact ⟨turns, session, ran, rendered, followed.blocks_eq, marked, chained,
    fun portion member => (facts portion member).1, fun portion member => (facts portion member).2.1,
    fun portion member => (facts portion member).2.2⟩

section

variable {source : Text} {turns : List Turn} {session : Session} {node : NodeId} {portion : Portion}
  {earlier later : List Portion}

def marksBefore (settings : Settings) (source : Text) (earlier : List Portion) :
    NodeId → Option Mark :=
  earlier.foldl (Portion.record (.build source.lines) settings.debug) fun _ => none

theorem Rendered.bounds (rendered : Rendered settings source turns session)
    (listed : portion ∈ portions 0 turns) :
    portion.lines.start < portion.lines.stop ∧ portion.lines.stop ≤ source.lines.length :=
  ⟨(bounds_of_mem_portions listed).2, rendered.within portion listed⟩

theorem Rendered.octetRange_eq_ok (rendered : Rendered settings source turns session)
    (listed : portion ∈ portions 0 turns) :
    (LineIndex.build source.lines).octetRange portion.lines =
      .ok ((LineIndex.build source.lines).octets portion.lines) := by
  obtain ⟨content, within⟩ := rendered.bounds listed
  obtain ⟨-, -, -, -, range, -⟩ := LineIndex.exists_octets content within
  exact range

theorem Rendered.chained_at (rendered : Rendered settings source turns session)
    (parted : portions 0 turns = earlier ++ portion :: later) :
    Chained [] earlier (portion.turn.before.tree.childrenOf Tree.root) ∧
      portion.turn.after.tree.childrenOf Tree.root =
        portion.turn.before.tree.childrenOf Tree.root ++ portion.created ∧
      Chained (portion.turn.after.tree.childrenOf Tree.root) later
        (session.tree.childrenOf Tree.root) := by
  have chained := rendered.chained
  rw [parted] at chained
  obtain ⟨middle, front, back⟩ := chained.split
  cases back with
  | cons before after behind =>
    subst before
    exact ⟨front, after, after ▸ behind⟩

/-- A child that is there after a portion keeps its mark, or is the last and is moved on. -/
theorem Rendered.marksOf_eq (rendered : Rendered settings source turns session)
    (parted : portions 0 turns = earlier ++ portion :: later)
    (member : node ∈ portion.turn.after.tree.childrenOf Tree.root) :
    marksOf settings source turns node =
      (if (portion.turn.after.tree.childrenOf Tree.root).getLast? = some node then silent later
        else []).foldl
        (fun mark portion => some (.moved settings.debug (portion.origin (.build source.lines)) mark))
        (portion.record (.build source.lines) settings.debug (marksBefore settings source earlier)
          node) := by
  obtain ⟨-, -, behind⟩ := rendered.chained_at parted
  have distinct := rendered.noted.ordered.nodup_childrenOf Tree.root
  rw [marksOf, parted, List.foldl_append, List.foldl_cons]
  exact behind.foldl_record distinct member

theorem Rendered.not_mem_created (rendered : Rendered settings source turns session)
    (parted : portions 0 turns = earlier ++ portion :: later) (made : node ∈ portion.created) :
    ∀ other ∈ earlier ++ later, node ∉ other.created := by
  have distinct := rendered.noted.ordered.nodup_childrenOf Tree.root
  rw [rendered.chained.final_eq, parted, List.nil_append, List.flatMap_append, List.flatMap_cons]
    at distinct
  obtain ⟨-, behind, apart⟩ := List.nodup_append.1 distinct
  intro other member made'
  rcases List.mem_append.1 member with front | back
  · have first := List.mem_flatMap.2 ⟨other, front, made'⟩
    exact apart node first node (List.mem_append_left _ made) rfl
  · have second := List.mem_flatMap.2 ⟨other, back, made'⟩
    exact (List.nodup_append.1 behind).2.2 node made node second rfl

theorem exists_closing (portion : Portion) (node : NodeId) (later : List Portion) :
    ∃ other ∈ portion :: later, closing portion node later = other.lines := by
  unfold closing
  split
  · cases last : (silent later).getLast? with
    | none => exact ⟨portion, List.mem_cons_self, rfl⟩
    | some other =>
      have listed := (List.takeWhile_sublist _).subset (List.mem_of_getLast? last)
      exact ⟨other, List.mem_cons_of_mem _ listed, rfl⟩
  · exact ⟨portion, List.mem_cons_self, rfl⟩

theorem Rendered.marksOf_created (rendered : Rendered settings source turns session)
    (parted : portions 0 turns = earlier ++ portion :: later) (made : node ∈ portion.created) :
    ∃ flag, (settings.debug = true → flag = some true) ∧ marksOf settings source turns node = some
      ⟨((LineIndex.build source.lines).octets portion.lines).start,
        ((LineIndex.build source.lines).octets (closing portion node later)).stop, flag, flag⟩ := by
  obtain ⟨-, children, -⟩ := rendered.chained_at parted
  have member : node ∈ portion.turn.after.tree.childrenOf Tree.root := by
    rw [children]
    exact List.mem_append_right _ made
  have last : (portion.turn.after.tree.childrenOf Tree.root).getLast? = portion.created.getLast? := by
    rw [children, List.getLast?_append_of_ne_nil _ (List.ne_nil_of_mem made)]
  have found := rendered.marksOf_eq parted member
  rw [last, Portion.record_of_created made] at found
  obtain ⟨⟨start, stop, startAccurate, endAccurate⟩, moved, same, accurate, ends, still⟩ :=
    exists_moved (.build source.lines) settings.debug
      (.made settings.debug (portion.origin (.build source.lines)))
      (if portion.created.getLast? = some node then silent later else [])
  have accurate' := still rfl
  rw [moved] at found
  simp only [Mark.made, Portion.origin] at same accurate ends accurate'
  subst same accurate accurate'
  refine ⟨if settings.debug then some true else none, fun debug => if_pos debug, found.trans ?_⟩
  rw [ends]
  unfold closing
  split
  · cases (silent later).getLast? <;> rfl
  · rfl

end

/-- One portion has made a child of the root. The child bears the start of that portion and, if it is
the last child made by it, the stop of the portions that went on with it. Both ends are accurate. -/
def Restored (lead : String) (source : Text) (list : List Portion) (tree : Tree) (node : NodeId) :
    Prop :=
  ∃ earlier portion later, list = earlier ++ portion :: later ∧ node ∈ portion.created ∧
    (∀ other ∈ earlier ++ later, node ∉ other.created) ∧
    ∃ element here there, tree.get? node = some element ∧
      (LineIndex.build source.lines).octetRange portion.lines = .ok here ∧
      (LineIndex.build source.lines).octetRange (closing portion node later) = .ok there ∧
      Bears (.ofLead lead) element (some ⟨here.start, there.stop, some true, some true⟩)

/-- When the stages between have kept the keys of all lines, every child of the root bears the octets
of the lines that it was made from. -/
theorem render_round_trip (traced : Traced differ settings between compiler)
    (keeps : settings.strategy = .diff → differ.Keeps) (source : Text)
    (debug : settings.debug = true) (unbroken : Unbroken (preparedLines between source))
    (same : (preparedLines between source).map lineKey = source.lines.map lineKey) :
    ∃ turns session, compiler.turns source = .ok turns ∧ compiler.render source = .ok session ∧
      turns.map (·.block) = preparedBlocks between source ∧
      ∀ node ∈ session.tree.childrenOf Tree.root,
        Restored settings.attributeLead source (portions 0 turns) session.tree node := by
  obtain ⟨turns, session, ran, ended, blocks, rendered⟩ := traced.rendered keeps source unbroken same
  refine ⟨turns, session, ran, ended, blocks, fun node member => ?_⟩
  obtain ⟨earlier, portion, later, parted, made⟩ :=
    rendered.chained.exists_creator member List.not_mem_nil
  obtain ⟨flag, accurate, mark⟩ := rendered.marksOf_created parted made
  obtain ⟨other, listed, closed⟩ := exists_closing portion node later
  obtain ⟨element, there⟩ := Tree.exists_get? (rendered.noted.ordered.child_lt_size member)
  have bears := rendered.noted.marked node element there
  rw [mark, accurate debug] at bears
  refine ⟨earlier, portion, later, parted, made, rendered.not_mem_created parted made, element, _, _,
    there, ?_, ?_, bears⟩
  · apply rendered.octetRange_eq_ok
    rw [parted]
    exact List.mem_append_right _ List.mem_cons_self
  · rw [closed]
    apply rendered.octetRange_eq_ok
    rw [parted]
    exact List.mem_append_right _ listed

theorem render_round_trip_list : ∃ turns session,
    (extension { debug := true } .grammar).turns "- a\n\n- b\n\nc".toList = .ok turns ∧
      (extension { debug := true } .grammar).render "- a\n\n- b\n\nc".toList = .ok session ∧
      turns.map (·.block) = ["- a".toList, "- b".toList, "c".toList] ∧
      ∀ node ∈ session.tree.childrenOf Tree.root,
        Restored "data-" "- a\n\n- b\n\nc".toList (portions 0 turns) session.tree node :=
  render_round_trip (traced_extension_grammar .shortest { debug := true })
    (fun _ => Differ.keeps_shortest) "- a\n\n- b\n\nc".toList rfl (unbroken_lines _) rfl

end Tracemark.Offsets
