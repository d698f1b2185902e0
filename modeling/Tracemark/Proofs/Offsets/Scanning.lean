import Tracemark.Proofs.Offsets.Offers

/-! Blocks that need not be blocks of the document.

Whatever text is offered as a block, the scan passes over unclaimed lines up to the first that is a line
of the block. From there it takes lines for as long as the block has them, each as often as the block has
it, and it stops in front of the first line that the block has no more of. Blank lines do not count.
-/

set_option autoImplicit false

namespace Tracemark.Offsets

def contentIn (lines : List Text) (run : Interval) : List Text :=
  ((numbered 0 lines).filter (·.1 ∈ run)).map (·.2)

/-- A line with content, behind the last claim, that is a line of the block. -/
def Tracker.Claimable (tracker : Tracker) (block : Text) (line : Nat) : Prop :=
  tracker.frontier ≤ line ∧
    ∃ text ∈ block.lines, tracker.mutatedLines[line]? = some text ∧ text.isBlank = false

structure Tracker.Maximal (tracker : Tracker) (block : Text) (run : Interval) : Prop where
  some_line : run.start < run.stop
  within : run.stop ≤ tracker.mutatedLines.length
  starts : tracker.Claimable block run.start
  first : ∀ line, tracker.Claimable block line → run.start ≤ line
  last : HasContent tracker.mutatedLines (run.stop - 1)
  ours : ∀ text ∈ contentIn tracker.mutatedLines run, text ∈ block.lines
  owned : ∀ text, (contentIn tracker.mutatedLines run).count text ≤ block.lines.count text
  /-- Of the next line with content the block has no more than stands in the run. -/
  stops : ∀ next text, run.stop ≤ next → tracker.mutatedLines[next]? = some text →
    text.isBlank = false →
    (∀ between, run.stop ≤ between → between < next → ¬HasContent tracker.mutatedLines between) →
    (contentIn tracker.mutatedLines run).count text = block.lines.count text

/-- An offer of any block: it claims a maximal run, unless there is no line that it can claim. -/
structure Offer.Scanned (offer : Offer) : Prop where
  claims : ∀ run, offer.claimed = some run → offer.before.Maximal offer.block run ∧
    offer.after = { offer.before with lastClaimed := some (run.stop - 1) }
  passes_iff : offer.claimed = none ↔ ∀ line, ¬offer.before.Claimable offer.block line
  unchanged : offer.claimed = none → offer.after = offer.before
  wants : offer.before.guard = .idle →
    (offer.before.wants offer.block = true ↔ offer.claimed.isSome = true)

variable {wanted : List Text} {entries front own back : List (Nat × Text)}
  {first last entry : Nat × Text}

/-! What a scan takes. -/

/-- A scan under way takes lines up to the first that is no longer wanted. What was wanted is then
divided into what was taken and what is left. -/
theorem exists_taken_of_claimRun (taken : Nat × Nat) (wanted : List Text)
    (entries : List (Nat × Text)) :
    ∃ own rest left, entries = own ++ rest ∧ wanted.Perm (own.map (·.2) ++ left) ∧
      (∀ next ∈ rest.head?, next.2 ∉ left) ∧
      claimRun (some taken) wanted entries = own.foldl takeLine (some taken) := by
  induction entries generalizing taken wanted with
  | nil => exact ⟨[], [], wanted, rfl, .refl _, nofun, rfl⟩
  | cons entry rest ih =>
    by_cases wants : entry.2 ∈ wanted
    · obtain ⟨own, after, left, rfl, divided, stops, scanned⟩ :=
        ih (taken.1, entry.1) (wanted.erase entry.2)
      refine ⟨entry :: own, after, left, rfl, ?_, stops, ?_⟩
      · exact (List.perm_cons_erase wants).trans (divided.cons entry.2)
      · rw [claimRun_of_mem wants]
        exact scanned
    · refine ⟨[], entry :: rest, wanted, rfl, .refl _, ?_, ?_⟩
      · intro next head
        rwa [← Option.mem_some.1 head]
      · rw [claimRun_of_not_mem wants]
        rfl

theorem claimRun_cases (wanted : List Text) (entries : List (Nat × Text)) :
    (claimRun none wanted entries = none ∧ ∀ entry ∈ entries, entry.2 ∉ wanted) ∨
      ∃ skipped own rest left first last, entries = skipped ++ own ++ rest ∧
        own.head? = some first ∧ own.getLast? = some last ∧
        (∀ entry ∈ skipped, entry.2 ∉ wanted) ∧ wanted.Perm (own.map (·.2) ++ left) ∧
        (∀ next ∈ rest.head?, next.2 ∉ left) ∧
        claimRun none wanted entries = some (first.1, last.1) := by
  induction entries with
  | nil => exact .inl ⟨rfl, nofun⟩
  | cons entry rest ih =>
    by_cases wants : entry.2 ∈ wanted
    · right
      obtain ⟨own, after, left, rfl, divided, stops, scanned⟩ :=
        exists_taken_of_claimRun (entry.1, entry.1) (wanted.erase entry.2) rest
      refine ⟨[], entry :: own, after, left, entry, (own.getLast?).getD entry, rfl, rfl,
        List.getLast?_cons, nofun, (List.perm_cons_erase wants).trans (divided.cons entry.2), stops, ?_⟩
      rw [claimRun_of_mem wants]
      rw [foldl_takeLine] at scanned
      refine Eq.trans scanned ?_
      cases own.getLast? <;> rfl
    · have passed : claimRun none wanted (entry :: rest) = claimRun none wanted rest :=
        claimRun_of_not_mem wants
      rw [passed]
      rcases ih with ⟨none, unwanted⟩ | ⟨skipped, own, after, left, first, last, rfl, head, atEnd,
        unwanted, others⟩
      · exact .inl ⟨none, List.forall_mem_cons.2 ⟨wants, unwanted⟩⟩
      · exact .inr ⟨entry :: skipped, own, after, left, first, last, rfl, head, atEnd,
          List.forall_mem_cons.2 ⟨wants, unwanted⟩, others⟩

theorem filter_between (sorted : (front ++ own ++ back).Pairwise (·.1 < ·.1))
    (head : own.head? = some first) (atEnd : own.getLast? = some last) :
    (front ++ own ++ back).filter (fun entry => entry.1 ∈ (⟨first.1, last.1 + 1⟩ : Interval)) =
      own := by
  obtain ⟨outer, -, before⟩ := List.pairwise_append.1 sorted
  obtain ⟨-, inner, before'⟩ := List.pairwise_append.1 outer
  have isOwn : own.filter (fun entry => entry.1 ∈ (⟨first.1, last.1 + 1⟩ : Interval)) = own := by
    rw [List.filter_eq_self]
    intro entry member
    exact decide_eq_true ⟨le_of_head? inner head member,
      Nat.lt_succ_of_le (le_of_getLast? inner atEnd member)⟩
  have noneBefore : front.filter (fun entry => entry.1 ∈ (⟨first.1, last.1 + 1⟩ : Interval)) = [] := by
    rw [List.filter_eq_nil_iff]
    intro entry member inside
    have early := before' entry member first (List.mem_of_head? head)
    exact Nat.not_lt.2 (of_decide_eq_true inside).1 early
  have noneBehind : back.filter (fun entry => entry.1 ∈ (⟨first.1, last.1 + 1⟩ : Interval)) = [] := by
    rw [List.filter_eq_nil_iff]
    intro entry member inside
    have late := before last (List.mem_append_right _ (List.mem_of_getLast? atEnd)) entry member
    exact Nat.not_lt.2 (Nat.le_of_lt_succ (of_decide_eq_true inside).2) late
  rw [List.filter_append, List.filter_append, isOwn, noneBefore, noneBehind, List.nil_append,
    List.append_nil]

namespace Tracker

variable {tracker : Tracker} {block : Text} {blocks : List Text} {run : Interval} {line : Nat}

theorem mem_unclaimed : entry ∈ tracker.unclaimed ↔
    tracker.frontier ≤ entry.1 ∧ tracker.mutatedLines[entry.1]? = some entry.2 ∧
      entry.2.isBlank = false := by
  rw [unclaimed_eq, List.mem_filter, mem_numbered, decide_eq_true_eq, Nat.sub_zero, and_comm]
  simp

theorem claimable_iff : tracker.Claimable block line ↔
    ∃ text ∈ block.lines, (line, text) ∈ tracker.unclaimed := by
  simp only [Claimable, mem_unclaimed]
  constructor
  · rintro ⟨behind, text, ours, here⟩
    exact ⟨text, ours, behind, here⟩
  · rintro ⟨text, ours, behind, here⟩
    exact ⟨behind, text, ours, here⟩

theorem pairwise_unclaimed (tracker : Tracker) :
    tracker.unclaimed.Pairwise (·.1 < ·.1) := by
  rw [unclaimed_eq]
  exact (pairwise_numbered 0 tracker.mutatedLines).filter _

theorem contentIn_eq (behind : tracker.frontier ≤ run.start) :
    contentIn tracker.mutatedLines run =
      (tracker.unclaimed.filter (·.1 ∈ run)).map (·.2) := by
  rw [contentIn, unclaimed_eq, List.filter_filter]
  congr 1
  apply List.filter_congr
  intro entry _
  rw [← Bool.decide_and]
  refine decide_eq_decide.2 (and_iff_left_of_imp fun inside => ?_).symm
  exact Nat.le_trans behind inside.1

section

variable {skipped rest : List (Nat × Text)} {left : List Text} {text : Text}
  (parted : tracker.unclaimed = skipped ++ own ++ rest)

include parted

-- What the scan has passed over is not wanted.
theorem first_le_of_wanted (head : own.head? = some first)
    (unwanted : ∀ entry ∈ skipped, entry.2 ∉ block.lines) (listed : entry ∈ tracker.unclaimed)
    (wants : entry.2 ∈ block.lines) : first.1 ≤ entry.1 := by
  have sorted := tracker.pairwise_unclaimed
  rw [parted, List.append_assoc] at sorted listed
  have behind := (List.mem_append.1 listed).resolve_left fun passed => unwanted entry passed wants
  refine le_of_head? (List.pairwise_append.1 sorted).2.1 ?_ behind
  rw [List.head?_append, head]
  rfl

theorem head_eq_of_next (atEnd : own.getLast? = some last) {next : Nat} (behind : last.1 < next)
    (listed : (next, text) ∈ tracker.unclaimed)
    (nearest : ∀ between, last.1 < between → between < next →
      ¬HasContent tracker.mutatedLines between) : rest.head? = some (next, text) := by
  have sorted := tracker.pairwise_unclaimed
  rw [parted] at sorted listed
  obtain ⟨front, later, before⟩ := List.pairwise_append.1 sorted
  have inRest : (next, text) ∈ rest := by
    refine (List.mem_append.1 listed).resolve_left fun early => ?_
    have atEnd' : (skipped ++ own).getLast? = some last := by
      rw [List.getLast?_append, atEnd]
      rfl
    exact Nat.not_lt.2 (le_of_getLast? front atEnd' early) behind
  obtain ⟨nearer, others, rfl⟩ := List.exists_cons_of_ne_nil (List.ne_nil_of_mem inRest)
  have unclaimed : nearer ∈ tracker.unclaimed := by
    rw [parted]
    exact List.mem_append_right _ List.mem_cons_self
  have beyond : last.1 < nearer.1 :=
    before last (List.mem_append_right _ (List.mem_of_getLast? atEnd)) nearer List.mem_cons_self
  rcases List.mem_cons.1 inRest with same | further
  · rw [same, List.head?_cons]
  · have sooner := List.rel_of_pairwise_cons later further
    exact absurd ⟨nearer.2, (mem_unclaimed.1 unclaimed).2⟩ (nearest nearer.1 beyond sooner)

/-- What a scan takes is a maximal run. -/
theorem maximal_of_taken (head : own.head? = some first) (atEnd : own.getLast? = some last)
    (unwanted : ∀ entry ∈ skipped, entry.2 ∉ block.lines)
    (divided : block.lines.Perm (own.map (·.2) ++ left))
    (stops : ∀ next ∈ rest.head?, next.2 ∉ left) :
    tracker.Maximal block ⟨first.1, last.1 + 1⟩ := by
  have sorted := parted ▸ tracker.pairwise_unclaimed
  have inner := (List.pairwise_append.1 (List.pairwise_append.1 sorted).1).2.1
  have member {entry : Nat × Text} (taken : entry ∈ own) : entry ∈ tracker.unclaimed := by
    rw [parted]
    exact List.mem_append_left _ (List.mem_append_right _ taken)
  have isFirst := mem_unclaimed.1 (member (List.mem_of_head? head))
  have isLast := mem_unclaimed.1 (member (List.mem_of_getLast? atEnd))
  have content : contentIn tracker.mutatedLines ⟨first.1, last.1 + 1⟩ = own.map (·.2) := by
    rw [contentIn_eq isFirst.1, parted, filter_between sorted head atEnd]
  have ours : ∀ text ∈ own.map (·.2), text ∈ block.lines := fun text taken =>
    divided.mem_iff.2 (List.mem_append_left _ taken)
  have counts (text : Text) :
      block.lines.count text = (own.map (·.2)).count text + left.count text := by
    rw [divided.count_eq, List.count_append]
  have ordered : first.1 ≤ last.1 := le_of_head? inner head (List.mem_of_getLast? atEnd)
  refine ⟨Nat.lt_succ_of_le ordered, ?within, ?starts, ?first, ⟨last.2, isLast.2⟩, ?ours, ?owned, ?stops⟩
  case within => exact (List.getElem?_eq_some_iff.1 isLast.2.1).1
  case starts =>
    exact claimable_iff.2 ⟨first.2, ours _ (List.mem_map_of_mem (List.mem_of_head? head)),
      member (List.mem_of_head? head)⟩
  case first =>
    intro line claimable
    obtain ⟨text, wants, listed⟩ := claimable_iff.1 claimable
    exact first_le_of_wanted parted head unwanted listed wants
  case ours => rwa [content]
  case owned =>
    intro text
    rw [content, counts]
    exact Nat.le_add_right _ _
  case stops =>
    intro next text behind here filled nearest
    have listed : (next, text) ∈ tracker.unclaimed :=
      mem_unclaimed.2 ⟨Nat.le_trans isLast.1 (Nat.le_of_lt behind), here, filled⟩
    have stopped := stops _ (head_eq_of_next parted atEnd behind listed nearest)
    rw [content, counts, List.count_eq_zero_of_not_mem stopped, Nat.add_zero]

end

theorem claim_cases (tracker : Tracker) (block : Text) :
    (tracker.claim block = none ∧ ∀ line, ¬tracker.Claimable block line) ∨
      ∃ run, tracker.claim block =
          some (run, { tracker with lastClaimed := some (run.stop - 1) }) ∧
        tracker.Maximal block run := by
  rcases claimRun_cases block.lines tracker.unclaimed with ⟨none, unwanted⟩ |
    ⟨skipped, own, rest, left, first, last, parted, head, atEnd, unwanted, divided, stops, scanned⟩
  · refine .inl ⟨by rw [claim, none]; rfl, fun line claimable => ?_⟩
    obtain ⟨text, wants, listed⟩ := claimable_iff.1 claimable
    exact unwanted _ listed wants
  · refine .inr ⟨⟨first.1, last.1 + 1⟩, by rw [claim, scanned]; rfl, ?_⟩
    exact maximal_of_taken parted head atEnd unwanted divided stops

theorem wants_iff : tracker.wants block = true ↔
    tracker.guard.isPrerendering = false ∧ ∃ line, tracker.Claimable block line := by
  rw [wants, Bool.and_eq_true, Bool.not_eq_true', List.any_eq_true]
  refine and_congr_right fun _ => ?_
  simp only [decide_eq_true_eq, claimable_iff]
  constructor
  · rintro ⟨entry, listed, ours⟩
    exact ⟨entry.1, entry.2, ours, listed⟩
  · rintro ⟨line, text, ours, listed⟩
    exact ⟨(line, text), listed, ours⟩

theorem wants_iff_of_idle (idle : tracker.guard = .idle) :
    tracker.wants block = true ↔ ∃ line, tracker.Claimable block line := by
  rw [wants_iff, idle]
  exact and_iff_right rfl

/-- One offer. What is claimed lies behind the last claim, and the frontier moves to its end. -/
theorem exists_scanned (tracker : Tracker) (block : Text) (rest : List Text) :
    ∃ offer : Offer, tracker.offers (block :: rest) = offer :: offer.after.offers rest ∧
      offer.block = block ∧ offer.before.mutatedLines = tracker.mutatedLines ∧ offer.Scanned ∧
      offer.after.mutatedLines = tracker.mutatedLines ∧
      (offer.claimed = none → offer.after.frontier = tracker.frontier) ∧
      ∀ run, offer.claimed = some run →
        tracker.frontier ≤ run.start ∧ run.start < run.stop ∧ offer.after.frontier = run.stop := by
  rcases tracker.claim_cases block with ⟨claim, passed⟩ | ⟨run, claim, maximal⟩
  · refine ⟨⟨block, tracker, none, tracker⟩, by rw [offers, claim], rfl, rfl, ?_, rfl,
      fun _ => rfl, nofun⟩
    refine ⟨nofun, iff_of_true rfl passed, fun _ => rfl, fun idle => ?_⟩
    exact (wants_iff_of_idle idle).trans (iff_of_false (not_exists.2 passed) Bool.false_ne_true)
  · have behind := Nat.sub_add_cancel (Nat.one_le_of_lt maximal.some_line)
    refine ⟨⟨block, tracker, some run, { tracker with lastClaimed := some (run.stop - 1) }⟩,
      by rw [offers, claim], rfl, rfl, ?_, rfl, (by rintro ⟨⟩), ?_⟩
    · refine ⟨?_, iff_of_false (Option.some_ne_none _) fun passed => passed _ maximal.starts,
        (by rintro ⟨⟩), fun idle => ?_⟩
      · rintro _ ⟨⟩
        exact ⟨maximal, rfl⟩
      · exact (wants_iff_of_idle idle).trans (iff_of_true ⟨_, maximal.starts⟩ rfl)
    · rintro _ ⟨⟩
      exact ⟨maximal.starts.1, maximal.some_line, behind⟩

theorem offers_ordered (tracker : Tracker) (blocks : List Text) :
    (∀ run ∈ (tracker.offers blocks).filterMap (·.claimed), tracker.frontier ≤ run.start) ∧
      ((tracker.offers blocks).filterMap (·.claimed)).Pairwise
        fun run later => run.stop ≤ later.start := by
  induction blocks generalizing tracker with
  | nil => exact ⟨nofun, .nil⟩
  | cons block rest ih =>
    obtain ⟨offer, offers, -, -, -, -, passes, claims⟩ := tracker.exists_scanned block rest
    obtain ⟨fresh, sorted⟩ := ih offer.after
    rw [offers, List.filterMap_cons]
    cases claimed : offer.claimed with
    | none => exact ⟨passes claimed ▸ fresh, sorted⟩
    | some run =>
      obtain ⟨behind, some_line, moved⟩ := claims run claimed
      rw [moved] at fresh
      refine ⟨List.forall_mem_cons.2 ⟨behind, fun later member => ?_⟩, sorted.cons fresh⟩
      exact Nat.le_trans behind (Nat.le_trans (Nat.le_of_lt some_line) (fresh later member))

end Tracker

/-- Whatever blocks are offered to a tracker, what they claim goes forward without overlap. Each of them
claims a maximal run of lines that it has, unless no unclaimed line with content is one of its own. -/
theorem offers_scanned (tracker : Tracker) (blocks : List Text) :
    (((tracker.offers blocks).filterMap (·.claimed)).Pairwise
        fun run later => run.stop ≤ later.start) ∧
      List.Forall₂ (fun block offer => offer.block = block ∧
          offer.before.mutatedLines = tracker.mutatedLines ∧ offer.Scanned)
        blocks (tracker.offers blocks) := by
  refine ⟨(tracker.offers_ordered blocks).2, ?_⟩
  induction blocks generalizing tracker with
  | nil => exact .nil
  | cons block rest ih =>
    obtain ⟨offer, offers, same, lines, scanned, lines', -⟩ := tracker.exists_scanned block rest
    rw [offers]
    exact .cons ⟨same, lines, scanned⟩ (lines' ▸ ih offer.after)

/-- A block with one line twice, one that has none of the lines, and one in another order. -/
example :
    let mutated : List Text := [['a'], ['x'], [], ['x'], ['x'], ['y']]
    (((Tracker.ofLines []).align .sequential mutated).offers
        [['x', '\n', 'y', '\n', 'x'], ['z'], ['y', '\n', 'x']]).map (·.claimed) =
      [some ⟨1, 4⟩, none, some ⟨4, 6⟩] := by
  decide +kernel

end Tracemark.Offsets
