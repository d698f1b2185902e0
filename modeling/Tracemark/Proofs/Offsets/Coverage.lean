import Tracemark.Proofs.Offsets.RoundTrip

/-! Which octets cover what was made of them.

A child of the root that a block creates covers the block, and so does the last child when a block
goes on with it and creates none. A block that does both, as an item that goes on with a list and has a
heading right behind it, gives its octets to what it creates. The child that it goes on with ends
before it then.
-/

set_option autoImplicit false

namespace Tracemark.Offsets

open Tracemark.Alignment (Differ lineKey)

/-- Something at or below an element is new, or has another text, after a turn. -/
def Gained (turn : Turn) (node : NodeId) : Prop :=
  ∃ id, turn.after.tree.Under node id ∧
    (turn.before.tree.size ≤ id ∨ ∃ old new, turn.before.tree.get? id = some old ∧
      turn.after.tree.get? id = some new ∧ new.text ≠ old.text)

variable {differ : Differ} {settings : Settings} {between : List Stage} {compiler : Compiler}
  {source : Text} {turn : Turn} {turns : List Turn} {session : Session} {node : NodeId}
  {portion : Portion} {earlier later : List Portion} {mark : Mark} {reach : Nat}

theorem Gained.getLast?_eq (gained : Gained turn node) (ordered : turn.before.tree.Ordered)
    (extended : Tree.Extends Tree.root turn.before.tree turn.after.tree)
    (member : node ∈ turn.before.tree.childrenOf Tree.root) :
    (turn.before.tree.childrenOf Tree.root).getLast? = some node := by
  have old := ordered.child_lt_size member
  -- What stands below the node and below the last child makes the two the same.
  have same {id : NodeId} (under : turn.before.tree.Under node id)
      (inLast : turn.before.tree.UnderLast Tree.root id) :
      (turn.before.tree.childrenOf Tree.root).getLast? = some node := by
    obtain ⟨last, atEnd, under'⟩ := inLast
    rw [atEnd, ordered.eq_of_under under' under (List.mem_of_getLast? atEnd) member]
  obtain ⟨id, under, new | ⟨before, after, here, there, changed⟩⟩ := gained
  · obtain ⟨above, under, root | inLast⟩ := extended.exists_above_new ordered under old new
    · rw [root] at under
      exact absurd (ordered.le_of_under under) (Nat.not_le_of_lt (ordered.lt_of_mem_childrenOf member))
    · exact same under inLast
  · obtain ⟨kept, there', -, -, place⟩ := extended.kept here
    cases there.symm.trans there'
    exact same (extended.under_old under (Tree.lt_size_of_get? here)) (place changed)

theorem spans_foldl {list : List Portion} {marks : NodeId → Option Mark} {start : Nat}
    (spans : ∀ node mark, marks node = some mark → mark.Spans source.lines start)
    (within : ∀ portion ∈ list, portion.lines.start < portion.lines.stop ∧
      portion.lines.stop ≤ source.lines.length)
    (sorted : list.Pairwise fun portion later => portion.lines.stop ≤ later.lines.start)
    (from' : ∀ portion ∈ list, start ≤ portion.lines.start)
    (to' : ∀ portion ∈ list, portion.lines.stop ≤ reach) (le : start ≤ reach)
    (found : list.foldl (Portion.record (.build source.lines) settings.debug) marks node = some mark) :
    mark.Spans source.lines reach := by
  induction list generalizing marks start with
  | nil => exact (spans node mark found).mono le
  | cons portion rest ih =>
    rw [List.forall_mem_cons] at within from' to'
    obtain ⟨behind, sorted⟩ := List.pairwise_cons.1 sorted
    obtain ⟨first, last, here, there, -, same⟩ := LineIndex.exists_octets within.1.1 within.1.2
    apply ih _ within.2 sorted behind to'.2 to'.1 found
    intro node mark found
    exact spans_recorded spans from'.1 within.1.1 here there (congrArg Interval.start same)
      (congrArg Interval.stop same) found

namespace Rendered

variable (rendered : Rendered settings source turns session)
  (parted : portions 0 turns = earlier ++ portion :: later)

include rendered parted

theorem exists_marksBefore
    (member : node ∈ portion.turn.before.tree.childrenOf Tree.root) :
    ∃ mark, marksBefore settings source earlier node = some mark ∧
      mark.Spans source.lines portion.lines.start := by
  obtain ⟨front, -, -⟩ := rendered.chained_at parted
  have sorted := pairwise_portions 0 turns
  rw [parted] at sorted
  obtain ⟨sorted, -, cross⟩ := List.pairwise_append.1 sorted
  obtain ⟨mark, found⟩ : ∃ mark, marksBefore settings source earlier node = some mark :=
    front.exists_mark (by simp) node member
  refine ⟨mark, found, ?_⟩
  have listed {other : Portion} (member : other ∈ earlier) : other ∈ portions 0 turns := by
    rw [parted]
    exact List.mem_append_left _ member
  exact spans_foldl (fun node mark none => by cases none)
    (fun other member => rendered.bounds (listed member)) sorted (fun _ _ => Nat.zero_le _)
    (fun other member => cross other member portion List.mem_cons_self) (Nat.zero_le _) found

theorem octets_stop_le {other : Portion} (member : other ∈ portion :: later) :
    ((LineIndex.build source.lines).octets portion.lines).stop ≤
      ((LineIndex.build source.lines).octets other.lines).stop := by
  have listed {other : Portion} (member : other ∈ portion :: later) : other ∈ portions 0 turns := by
    rw [parted]
    exact List.mem_append_right _ member
  rcases List.mem_cons.1 member with rfl | behind
  · exact Nat.le_refl _
  · obtain ⟨content, within⟩ := rendered.bounds (listed List.mem_cons_self)
    obtain ⟨content', within'⟩ := rendered.bounds (listed member)
    have sorted := pairwise_portions 0 turns
    rw [parted] at sorted
    have order := (List.pairwise_cons.1 (List.pairwise_append.1 sorted).2.1).1 other behind
    obtain ⟨_, last, -, there, -, same⟩ := LineIndex.exists_octets content within
    obtain ⟨first, last', here, there', -, same'⟩ := LineIndex.exists_octets content' within'
    have before := LineIndex.stop_lt_start there here (by omega)
    have inside := LineIndex.start_le_stop here there' (by omega)
    rw [same, same']
    simp only
    omega

theorem covers_of_created (made : node ∈ portion.created) :
    ∃ mark, marksOf settings source turns node = some mark ∧
      mark.start ≤ ((LineIndex.build source.lines).octets portion.lines).start ∧
      ((LineIndex.build source.lines).octets portion.lines).stop ≤ mark.stop := by
  obtain ⟨flag, -, found⟩ := rendered.marksOf_created parted made
  obtain ⟨other, later, closed⟩ := exists_closing portion node later
  refine ⟨_, found, Nat.le_refl _, ?_⟩
  simp only [closed]
  exact rendered.octets_stop_le parted later

theorem marksOf_old (old : node ∈ portion.turn.before.tree.childrenOf Tree.root) :
    ∃ mark, mark.Spans source.lines portion.lines.start ∧
      marksOf settings source turns node =
        (if (portion.turn.before.tree.childrenOf Tree.root ++ portion.created).getLast? = some node
          then silent later else []).foldl
          (fun mark portion => some (.moved settings.debug (portion.origin (.build source.lines)) mark))
          (if portion.created = [] ∧
              (portion.turn.before.tree.childrenOf Tree.root).getLast? = some node then
            some (.moved settings.debug (portion.origin (.build source.lines)) (some mark))
          else some mark) := by
  obtain ⟨-, children, behind⟩ := rendered.chained_at parted
  have distinct : (portion.turn.before.tree.childrenOf Tree.root ++ portion.created).Nodup := by
    have whole := rendered.noted.ordered.nodup_childrenOf Tree.root
    rw [behind.final_eq, children] at whole
    exact (List.nodup_append.1 whole).1
  obtain ⟨mark, marked, spans⟩ := rendered.exists_marksBefore parted old
  have found := rendered.marksOf_eq parted (children ▸ List.mem_append_left _ old)
  rw [Portion.record_of_mem children distinct old, marked, children] at found
  exact ⟨mark, spans, found⟩

theorem covers_of_silent (fresh : portion.created = [])
    (atEnd : (portion.turn.before.tree.childrenOf Tree.root).getLast? = some node) :
    ∃ mark, marksOf settings source turns node = some mark ∧
      mark.start ≤ ((LineIndex.build source.lines).octets portion.lines).start ∧
      ((LineIndex.build source.lines).octets portion.lines).stop ≤ mark.stop := by
  have listed : portion ∈ portions 0 turns :=
    parted ▸ List.mem_append_right _ List.mem_cons_self
  obtain ⟨content, within⟩ := rendered.bounds listed
  obtain ⟨first, last, here, -, -, same⟩ := LineIndex.exists_octets content within
  obtain ⟨mark, spans, found⟩ := rendered.marksOf_old parted (List.mem_of_getLast? atEnd)
  rw [fresh, List.append_nil, if_pos atEnd, if_pos ⟨rfl, atEnd⟩] at found
  obtain ⟨result, moved, start, -, stop, -⟩ := exists_moved (.build source.lines) settings.debug
    (.moved settings.debug (portion.origin (.build source.lines)) (some mark)) (silent later)
  rw [moved] at found
  refine ⟨result, found, ?_, ?_⟩
  · rw [start, same]
    exact Nat.le_trans spans.start_le_stop (Nat.le_of_lt (spans.stop_lt (Nat.le_refl _) here))
  · rw [stop]
    cases followed : (silent later).getLast? with
    | none => exact Nat.le_refl _
    | some other =>
      have behind := (List.takeWhile_sublist _).subset (List.mem_of_getLast? followed)
      exact rendered.octets_stop_le parted (List.mem_cons_of_mem _ behind)

-- An older child ends before a portion that creates another.
theorem stop_lt_of_other (some_child : portion.created ≠ []) (other : node ∉ portion.created)
    (old : node ∈ portion.turn.before.tree.childrenOf Tree.root) :
    ∃ mark, marksOf settings source turns node = some mark ∧
      mark.stop < ((LineIndex.build source.lines).octets portion.lines).stop := by
  have listed : portion ∈ portions 0 turns :=
    parted ▸ List.mem_append_right _ List.mem_cons_self
  obtain ⟨content, within⟩ := rendered.bounds listed
  obtain ⟨first, last, here, there, -, same⟩ := LineIndex.exists_octets content within
  obtain ⟨mark, spans, found⟩ := rendered.marksOf_old parted old
  have notLast : (portion.turn.before.tree.childrenOf Tree.root ++ portion.created).getLast? ≠
      some node := by
    rw [List.getLast?_append_of_ne_nil _ some_child]
    exact fun last => other (List.mem_of_getLast? last)
  rw [if_neg notLast, if_neg fun both => some_child both.1] at found
  refine ⟨mark, found, ?_⟩
  rw [same]
  exact Nat.lt_of_lt_of_le (spans.stop_lt (Nat.le_refl _) here)
    (LineIndex.start_le_stop here there (Nat.le_sub_one_of_lt content))

/-- The mark that a child ends with covers a portion in which it gained something if the portion
created it or created no child at all, and only then. -/
theorem covers_iff (member : node ∈ portion.turn.after.tree.childrenOf Tree.root)
    (gained : Gained portion.turn node) :
    ∃ mark, marksOf settings source turns node = some mark ∧
      ((mark.start ≤ ((LineIndex.build source.lines).octets portion.lines).start ∧
        ((LineIndex.build source.lines).octets portion.lines).stop ≤ mark.stop) ↔
          node ∈ portion.created ∨ portion.created = []) := by
  have listed : portion ∈ portions 0 turns :=
    parted ▸ List.mem_append_right _ List.mem_cons_self
  by_cases made : node ∈ portion.created
  · obtain ⟨mark, found, covers⟩ := rendered.covers_of_created parted made
    exact ⟨mark, found, iff_of_true covers (.inl made)⟩
  · obtain ⟨-, children, -⟩ := rendered.chained_at parted
    rw [children] at member
    have old := (List.mem_append.1 member).resolve_right made
    by_cases fresh : portion.created = []
    · have atEnd := gained.getLast?_eq (rendered.ordered portion listed)
        (rendered.extended portion listed) old
      obtain ⟨mark, found, covers⟩ := rendered.covers_of_silent parted fresh atEnd
      exact ⟨mark, found, iff_of_true covers (.inr fresh)⟩
    · obtain ⟨mark, found, short⟩ := rendered.stop_lt_of_other parted fresh made old
      refine ⟨mark, found, iff_of_false ?_ ?_⟩
      · exact fun covers => Nat.not_le_of_lt short covers.2
      · rintro (here | none)
        · exact made here
        · exact fresh none

end Rendered

/-- When the stages between have kept the keys of all lines, a child of the root in which a block made
something ends the render with octets that cover the block exactly if the block created that child, or
created no child of the root at all. -/
theorem covers_gained_iff (traced : Traced differ settings between compiler)
    (keeps : settings.strategy = .diff → differ.Keeps) (source : Text)
    (unbroken : Unbroken (preparedLines between source))
    (same : (preparedLines between source).map lineKey = source.lines.map lineKey) :
    ∃ turns session, compiler.turns source = .ok turns ∧ compiler.render source = .ok session ∧
      turns.map (·.block) = preparedBlocks between source ∧
      ∀ portion ∈ portions 0 turns,
        ∀ node ∈ portion.turn.after.tree.childrenOf Tree.root, Gained portion.turn node →
          ∃ element mark octets, session.tree.get? node = some element ∧
            Bears (.ofLead settings.attributeLead) element (some mark) ∧
            (LineIndex.build source.lines).octetRange portion.lines = .ok octets ∧
            (mark.start ≤ octets.start ∧ octets.stop ≤ mark.stop ↔
              node ∈ portion.created ∨ portion.created = []) := by
  obtain ⟨turns, session, ran, ended, blocks, rendered⟩ := traced.rendered keeps source unbroken same
  refine ⟨turns, session, ran, ended, blocks, fun portion listed node member gained => ?_⟩
  obtain ⟨earlier, later, parted⟩ := List.append_of_mem listed
  obtain ⟨mark, found, covers⟩ := rendered.covers_iff parted member gained
  have range := rendered.octetRange_eq_ok listed
  obtain ⟨-, -, behind⟩ := rendered.chained_at parted
  have kept : node ∈ session.tree.childrenOf Tree.root := by
    rw [behind.final_eq]
    exact List.mem_append_left _ member
  obtain ⟨element, there⟩ := Tree.exists_get? (rendered.noted.ordered.child_lt_size kept)
  have bears := rendered.noted.marked node element there
  rw [found] at bears
  exact ⟨element, mark, _, there, bears, range, covers⟩

/-- The second item goes on with the list, and the heading behind it gets the octets of both. -/
theorem exists_gained_not_covered : ∃ turns session, ∃ portion ∈ portions 0 turns,
    ∃ node ∈ portion.turn.after.tree.childrenOf Tree.root, ∃ element mark octets,
      (extension { debug := true } .grammar).turns "- a\n\n- b\n# H".toList = .ok turns ∧
      (extension { debug := true } .grammar).render "- a\n\n- b\n# H".toList = .ok session ∧
      Gained portion.turn node ∧ session.tree.get? node = some element ∧
      Bears (.ofLead "data-") element (some mark) ∧
      (LineIndex.build (Text.lines "- a\n\n- b\n# H".toList)).octetRange portion.lines =
        .ok octets ∧ ¬(mark.start ≤ octets.start ∧ octets.stop ≤ mark.stop) := by
  have traced : Traced .shortest { debug := true } [] (extension { debug := true } .grammar) :=
    traced_extension_grammar _ _
  obtain ⟨turns, session, ran, ended, -, covers⟩ :=
    covers_gained_iff traced (fun _ => Differ.keeps_shortest) "- a\n\n- b\n# H".toList
      (unbroken_lines _) rfl
  have computed : turns = ((extension { debug := true } .grammar).turns
      "- a\n\n- b\n# H".toList).toOption.getD [] := by
    rw [ran]
    rfl
  have second : (portions 0 turns)[1]?.map (fun portion => (portion.created,
      portion.turn.before.tree.size, portion.turn.after.tree.childrenOf Tree.root,
      portion.turn.after.tree.childrenOf 1)) = some ([6], 4, [1, 6], [2, 4]) := by
    rw [computed]
    decide +kernel
  obtain ⟨portion, there, facts⟩ := Option.map_eq_some_iff.1 second
  simp only [Prod.mk.injEq] at facts
  obtain ⟨created, size, children, items⟩ := facts
  have member : 1 ∈ portion.turn.after.tree.childrenOf Tree.root := by
    rw [children]
    exact List.mem_cons_self
  have gained : Gained portion.turn 1 := by
    refine ⟨4, .deeper .here ?_, .inl (Nat.le_of_eq size)⟩
    rw [items]
    exact List.mem_cons_of_mem _ List.mem_cons_self
  obtain ⟨element, mark, octets, found, bears, range, covers⟩ :=
    covers portion (List.mem_of_getElem? there) 1 member gained
  refine ⟨turns, session, portion, List.mem_of_getElem? there, 1, member, element, mark, octets, ran,
    ended, gained, found, bears, range, ?_⟩
  rw [covers, created]
  decide

end Tracemark.Offsets
