import Tracemark.Proofs.Offsets.Traced
import Tracemark.Proofs.Stage.Unbroken

/-! The offsets layer is transparent.

A source is rendered with the layer and without it, side by side. The stages leave the same lines on
both sides. Each turn with the layer makes the tree that the grammar makes of the block, and writes
nothing but attributes of the layer onto it, so the trees match from block to block. Without the layer
all blocks stand in one queue, and such a run may be cut after each of them.
-/

set_option autoImplicit false

namespace Tracemark

namespace Stage

/-- A stage that takes no notice of a tracker. -/
def Blind (stage : Stage) : Prop :=
  ∀ session tracker lines, stage.run (session.setTracker tracker) lines =
    ((stage.run session lines).1.setTracker tracker, (stage.run session lines).2)

theorem runAll_blind {stages : List Stage} (blind : ∀ stage ∈ stages, stage.Blind)
    (session : Session) (tracker : Offsets.Tracker) (lines : List Text) :
    runAll stages (session.setTracker tracker) lines =
      ((runAll stages session lines).1.setTracker tracker, (runAll stages session lines).2) := by
  induction stages generalizing session lines with
  | nil => rfl
  | cons stage rest ih =>
    rw [runAll_cons, runAll_cons, blind stage List.mem_cons_self session tracker lines]
    exact ih (fun other member => blind other (List.mem_cons_of_mem _ member)) _ _

end Stage

namespace Offsets

open Tracemark.Dispatch (offer run weight weight_cons weight_nil weight_append)
open Tracemark.Grammar (members members_lawful)
open Tracemark.Tree (Grows)

variable {settings : Settings} {line : Nat} {block : Text} {blocks : List Text}
  {before after plain : Session} {turns : List Turn}

theorem parsed_blank (session : Session) (blank : block.isBlank = true) :
    Parsed session block session.tree := by
  have accepted : Grammar.empty.accepts session Tree.root block = true := by
    simp [Grammar.empty, blank]
  have nothing : Grammar.putBack block.dropLeadingFeeds [] = [] :=
    if_pos (Grammar.dropLeadingFeeds_isBlank blank)
  rw [Parsed, run, members, offer, accepted]
  change run members (weight [block]) session Tree.root
    (Grammar.putBack block.dropLeadingFeeds []) = _
  rw [nothing]
  rfl

theorem Parsed.matching {names : AttributeNames} {grown : Tree} (shown : "class" ∉ names.toList)
    (parsed : Parsed before block grown) (ordered : before.tree.Ordered)
    (stash : before.stash = plain.stash)
    (matched : before.tree.Matches 0 names.toList plain.tree) :
    ∃ other, Parsed plain block other ∧ grown.Matches 0 names.toList other := by
  let pairing : Pairing :=
    { left := before, right := plain, shift := 0, hidden := names.toList, stash, shown }
  have follows : pairing.Follows Tree.root (weight [block] + 1) (run members (weight [block] + 1))
      (run members (weight [block] + 1)) :=
    Dispatch.run_follows pairing Tree.root [] members_lawful (by simp) (Nat.le_refl _) (Nat.le_refl _)
  have start : pairing.Paired before.tree plain.tree := ⟨ordered, matched⟩
  obtain ⟨tree, other, paired, -, ran, ran'⟩ :=
    follows start (Nat.le_refl _) ordered.root_lt_size (Nat.lt_succ_self (weight [block]))
  have same : before.setTree tree = before.setTree grown := Except.ok.inj (ran.symm.trans parsed)
  have same' : tree = grown := congrArg Session.tree same
  exact ⟨other, ran', same' ▸ paired.matched⟩

theorem Turned.simulates (turned : Turned settings line block before after)
    (ordered : before.tree.Ordered) (stash : before.stash = plain.stash)
    (matched : before.tree.Matches 0 (AttributeNames.ofLead settings.attributeLead).toList
      plain.tree) :
    ∃ grown, Parsed plain block grown ∧ after.tree.Ordered ∧
      after.tree.Matches 0 (AttributeNames.ofLead settings.attributeLead).toList grown ∧
      after.stash = before.stash ∧ after.metadata = before.metadata := by
  have shown := class_not_mem_ofLead settings.attributeLead
  cases turned with
  | blank blank => exact ⟨plain.tree, parsed_blank plain blank, ordered, matched, rfl, rfl⟩
  | lost _ _ parsed _ =>
    obtain ⟨grown, parsed', matched'⟩ := parsed.matching shown ordered stash matched
    exact ⟨grown, parsed', (parsed.grows ordered).ordered, matched', rfl, rfl⟩
  | @placed tracker _ _ tree origin fresh _ _ parsed _ _ =>
    obtain ⟨grown, parsed', matched'⟩ := parsed.matching shown ordered stash matched
    have extended : Tree.Extends Tree.root before.tree
        ((settings.stamper tracker).written tree Tree.root origin fresh) :=
      Stamper.extends_written (parsed.grows ordered).toExtends
    have written : Tree.Matches 0 (settings.stamper tracker).names.toList
        ((settings.stamper tracker).written tree Tree.root origin fresh) grown :=
      Stamper.matches_written matched'
    exact ⟨grown, parsed', extended.ordered, written, rfl, rfl⟩

/-- The blocks in one queue come out as they do one after another with the layer. -/
theorem Followed.simulates (plain : Session) (followed : Followed settings line blocks before turns after)
    (ordered : before.tree.Ordered) (ordered' : plain.tree.Ordered)
    (stash : before.stash = plain.stash)
    (matched : before.tree.Matches 0 (AttributeNames.ofLead settings.attributeLead).toList
      plain.tree) {budget : Nat} (enough : weight blocks < budget) :
    ∃ grown, run members budget plain Tree.root blocks = .ok (plain.setTree grown) ∧
      after.tree.Matches 0 (AttributeNames.ofLead settings.attributeLead).toList grown ∧
      after.metadata = before.metadata := by
  induction followed generalizing plain with
  | done =>
    obtain ⟨budget, rfl⟩ := Nat.exists_eq_add_of_lt enough
    exact ⟨plain.tree, rfl, matched, rfl⟩
  | @turn line block rest before middle after turns turned _ ih =>
    obtain ⟨grown, parsed, orderedMiddle, matchedMiddle, stashMiddle, metadata⟩ :=
      turned.simulates ordered stash matched
    have grows := parsed.grows ordered'
    obtain ⟨final, ran, matched', metadata'⟩ := ih (plain.setTree grown) orderedMiddle
      grows.ordered (stashMiddle.trans stash) matchedMiddle (by rw [weight_cons] at enough; omega)
    refine ⟨final, ?_, matched', metadata'.trans metadata⟩
    have first : weight [block] < budget := by
      rw [weight_cons] at enough ⊢
      rw [weight_nil]
      omega
    -- The queue of the plain run is cut behind its first block.
    have whole := Dispatch.run_append plain members_lawful [block] rest ordered'
      ordered'.root_lt_size enough
    rw [Dispatch.run_budget plain members_lawful ordered' ordered'.root_lt_size first
      (Nat.lt_succ_self _), parsed] at whole
    exact whole.trans ran

theorem referenceStages_blind : ∀ stage ∈ referenceStages, stage.Blind := by
  intro stage member
  simp only [referenceStages, List.mem_cons, List.not_mem_nil, or_false] at member
  rcases member with rfl | rfl | rfl <;> exact fun _ _ _ => rfl

theorem unbroken_referenceStages (session : Session) (source : Text) :
    Unbroken (Stage.runAll referenceStages session source.lines).2 := by
  apply Stage.unbroken_fencedCode
  apply Stage.unbroken_frontMatter
  exact Stage.unbroken_normalizeWhitespace (unbroken_lines source) session

/-- With any settings, the layer adds attributes of its own to the elements of a document and changes
nothing else: neither the elements and their order, nor their tags, texts and other attributes, nor the
metadata. -/
theorem render_extension_without_names (differ : Alignment.Differ) (settings : Settings)
    (source : Text) :
    ∃ plain traced, Compiler.reference.render source = .ok plain ∧
      (extensionBy differ settings .reference).render source = .ok traced ∧
      traced.metadata = plain.metadata ∧
      traced.tree.without (AttributeNames.ofLead settings.attributeLead).toList = plain.tree := by
  let left := (Stage.runAll referenceStages .new source.lines).1
  let lines := (Stage.runAll referenceStages .new source.lines).2
  have same : prepared referenceStages source =
      (left.setTracker (.ofLines source.lines), lines) :=
    Stage.runAll_blind referenceStages_blind .new _ _
  have lines_eq : preparedLines referenceStages source = lines := by
    rw [preparedLines, same]
  have unbroken : Unbroken (preparedLines referenceStages source) :=
    lines_eq ▸ unbroken_referenceStages .new source
  have bare : left.tree = Tree.empty :=
    (Stage.runAll_prepares referenceStages_prepare .new source.lines).1
  have start : startSession differ settings referenceStages source =
      left.setTracker (startTracker differ settings referenceStages source) := by
    rw [startSession, same, setTracker_setTracker]
  obtain ⟨turns, traced, -, rendered, followed⟩ :=
    (traced_extension_reference differ settings).followed source unbroken
  rw [start] at followed
  have ordered : left.tree.Ordered := by
    rw [bare]
    exact Tree.ordered_empty
  have matched : left.tree.Matches 0 (AttributeNames.ofLead settings.attributeLead).toList
      left.tree := by
    rw [bare]
    exact .of_without _ Tree.empty
  obtain ⟨grown, ran, matched', metadata⟩ := followed.simulates left ordered ordered rfl
    matched (Nat.lt_succ_of_le (Nat.le_add_right _ members.length))
  refine ⟨left.setTree grown, traced, ?_, rendered, metadata, matched'.eq_without.symm⟩
  rw [preparedBlocks, lines_eq] at ran
  exact ran

end Offsets

end Tracemark
