import Tracemark.Proofs.Offsets.Company

/-! Blocks that nothing comes of.

When a block leaves the tree as it was, the layer takes it to have gone on with the last child of its
parent, and writes the origin of the block onto that child. This is right where the block was merged
into the child without a trace, and wrong where no handler took the block, so that it was dropped.
-/

set_option autoImplicit false

namespace Tracemark

open Tracemark.Offsets (Settings)

/-- What is written onto the last child when nothing comes of the block of a call: its origin, if it has
one, and if there is a child. -/
def Call.patch? (settings : Settings) (call : Call) : Option (NodeId × List (String × Text)) := do
  let tracker ← call.session.tracker?
  let origin ← call.origin?
  let last ← (call.session.tree.childrenOf call.parent).getLast?
  let element ← call.session.tree.get? last
  return (last, (settings.stamper tracker).patchEntries element.attributes origin)

def Call.patched (settings : Settings) (call : Call) : Tree :=
  (call.patch? settings).elim call.session.tree fun (last, entries) =>
    call.session.tree.write last entries

theorem Handlers.parseBlocks_of_rejected {handlers : Handlers} {session : Session} {parent : NodeId}
    {block : Text}
    (rejected : ∀ handler ∈ handlers.items, handler.accepts session parent block = false) :
    handlers.parseBlocks session parent [block] = .ok session := by
  have passed (reparse : Reparse) :
      Dispatch.offer reparse parent block [] handlers.items session = .ok (session, []) := by
    rw [← List.append_nil handlers.items, Dispatch.offer_of_rejected rejected]
    rfl
  unfold parseBlocks Dispatch.run
  rw [passed]
  simp only [Dispatch.weight, Nat.add_zero, Nat.add_right_comm _ 1]
  rfl

namespace Offsets

variable {settings : Settings} {moves : Prop} {parser : Reparse} {call : Call} {tracker : Tracker}
  {lines : Interval} {parsed after : Session} {differ : Alignment.Differ} {between : List Stage}
  {compiler : Compiler} {actors : List Actor}

theorem Taken.tree_eq_patched
    (taken : Taken settings moves parser call tracker lines parsed after)
    (same : parsed.tree = call.session.tree) : after.tree = call.patched settings := by
  unfold Call.patched Call.patch?
  rw [taken.tracked, Option.bind_eq_bind, Option.bind_some]
  rcases taken.lost_or_placed with ⟨lost, rfl⟩ | ⟨origin, annotated, emitted, tree, found, wrote, rfl⟩
  · rw [lost]
    exact same
  · rw [found]
    rw [same, produced_self] at wrote
    change tree = _
    cases wrote with
    | alone none =>
      rw [Option.bind_eq_bind, Option.bind_some, none]
      rfl
    | merged atEnd there =>
      simp only [Option.bind_eq_bind, Option.bind_some, atEnd, there]
      rfl

theorem patch_of_eq_some {last : NodeId} {entries : List (String × Text)}
    (found : call.patch? settings = some (last, entries)) :
    (∃ element, call.session.tree.get? last = some element) ∧ (entries.map (·.1)).Nodup ∧
      ∀ entry ∈ entries, entry.1 ∈ (AttributeNames.ofLead settings.attributeLead).toList := by
  obtain ⟨tracker, -, found⟩ := Option.bind_eq_some_iff.1 found
  obtain ⟨origin, -, found⟩ := Option.bind_eq_some_iff.1 found
  obtain ⟨child, -, found⟩ := Option.bind_eq_some_iff.1 found
  obtain ⟨element, there, found⟩ := Option.bind_eq_some_iff.1 found
  cases found
  have names := settings.names_stamper tracker
  exact ⟨⟨element, there⟩, Stamper.nodup_keys_patchEntries names, Stamper.mem_names_of_mem_patchEntries⟩

theorem value?_patched_iff :
    (∀ node, ∀ name ∈ (AttributeNames.ofLead settings.attributeLead).toList,
      (call.patched settings).value? node name = call.session.tree.value? node name) ↔
    ∀ patch ∈ call.patch? settings, ∀ entry ∈ patch.2,
      call.session.tree.value? patch.1 entry.1 = some entry.2 := by
  unfold Call.patched
  cases found : call.patch? settings with
  | none => simp
  | some patch =>
    obtain ⟨last, entries⟩ := patch
    obtain ⟨⟨element, there⟩, distinct, covered⟩ := patch_of_eq_some found
    have unchanged := OrderedMap.get?_insertAll_eq_iff element.attributes distinct covered
    simp only [Option.elim_some, Option.mem_some_iff, forall_eq', Tree.value?_eq there]
    rw [← unchanged]
    constructor
    · intro same name member
      rw [← Tree.value?_write_self there, same last name member, Tree.value?_eq there]
    · intro same node name member
      by_cases here : node = last
      · subst here
        rw [Tree.value?_write_self there, same name member, Tree.value?_eq there]
      · exact Tree.value?_write_of_ne here

/-- A block of which nothing comes, as when no handler takes it, leaves the offsets of all elements as
they are if and only if it has no origin, its parent has no child, or the last child bears already what
the origin of the block is written as. Otherwise it is written onto that child, and nothing else. -/
theorem fruitless_unchanged_iff (staged : Staged differ settings between compiler)
    (acted : compiler.handlers.items = actors.map (·.handler))
    (known : ∀ actor ∈ actors, actor = layer settings ∨ actor ∈ Grammar.actors) (source : Text) :
    ∃ log session, compiler.calls actors source = .ok (log, session) ∧
      compiler.render source = .ok session ∧
      ∀ call ∈ log, call.handler = "offsets" → ∃ parsed after,
        call.Handles settings compiler.handlers.parseBlocks parsed after ∧
        ((∀ busy ∈ call.busy?, ∀ handler ∈ compiler.handlers.items,
          handler.accepts busy call.parent call.block = false) →
          parsed.tree = call.session.tree) ∧
        (parsed.tree = call.session.tree →
          after.tree = call.patched settings ∧
          ((∀ node, ∀ name ∈ (AttributeNames.ofLead settings.attributeLead).toList,
            after.tree.value? node name = call.session.tree.value? node name) ↔
          ∀ patch ∈ call.patch? settings, ∀ entry ∈ patch.2,
            call.session.tree.value? patch.1 entry.1 = some entry.2)) := by
  have company : Company settings False actors :=
    fun actor member => (known actor member).imp_right (beside_grammar actor)
  obtain ⟨log, session, told, rendered, each⟩ := company.exists_taken staged acted source
  refine ⟨log, session, told, rendered, fun call member layer => ?_⟩
  obtain ⟨tracker, lines, parsed, after, taken⟩ := each call member layer
  refine ⟨parsed, after, taken.handles, fun rejected => ?_, fun same => ?_⟩
  · have dropped := Handlers.parseBlocks_of_rejected (rejected _ taken.busy?_eq)
    cases taken.ran.symm.trans dropped
    rfl
  · have patched := taken.tree_eq_patched same
    refine ⟨patched, ?_⟩
    rw [patched]
    exact value?_patched_iff

/-- Without paragraphs, a text behind a heading is dropped, and the heading ends with it. -/
theorem fruitless_unchanged_iff_dropped :
    let grown := extension {} .grammar
    let compiler : Compiler := { grown with handlers := (grown.handlers.deregister "paragraph").2 }
    let actors := layer {} :: Grammar.actors.dropLast
    ∃ log session, compiler.calls actors "# a\n\ntext".toList = .ok (log, session) ∧
      compiler.render "# a\n\ntext".toList = .ok session ∧
      ∃ call ∈ log, ∃ parsed after, call.block = "text".toList ∧
        call.Handles {} compiler.handlers.parseBlocks parsed after ∧
        parsed.tree = call.session.tree ∧
        call.session.tree.value? 1 "data-original-document-end" = some "3".toList ∧
        after.tree.value? 1 "data-original-document-end" = some "9".toList := by
  intro grown compiler actors
  have known : ∀ actor ∈ actors, actor = layer {} ∨ actor ∈ Grammar.actors := by
    intro actor member
    exact (List.mem_cons.1 member).imp_right fun inside => (List.dropLast_subset _) inside
  have staged : Staged .shortest {} [] compiler := ⟨rfl, by simp⟩
  obtain ⟨log, session, told, rendered, each⟩ :=
    fruitless_unchanged_iff staged rfl known "# a\n\ntext".toList
  have computed : log =
      ((compiler.calls actors "# a\n\ntext".toList).toOption.map (·.1)).getD [] := by
    rw [told]
    rfl
  let dropped (call : Call) : Bool := call.handler = "offsets" && call.block = "text".toList &&
    (call.busy?.all fun busy => compiler.handlers.items.all fun handler =>
      !handler.accepts busy call.parent call.block) &&
    call.session.tree.value? 1 "data-original-document-end" = some "3".toList &&
    (call.patched {}).value? 1 "data-original-document-end" = some "9".toList
  have found : log.any dropped = true := by
    rw [computed]
    decide +kernel
  obtain ⟨call, member, facts⟩ := List.any_eq_true.1 found
  simp only [dropped, Bool.and_eq_true, decide_eq_true_eq] at facts
  obtain ⟨⟨⟨⟨layer, block⟩, rejected⟩, before⟩, behind⟩ := facts
  obtain ⟨parsed, after, handles, dropped, fruitless⟩ := each call member layer
  have same : parsed.tree = call.session.tree := by
    apply dropped
    intro busy here handler listed
    rw [Option.mem_def.1 here, Option.all_some] at rejected
    simpa using List.all_eq_true.1 rejected handler listed
  refine ⟨log, session, told, rendered, call, member, parsed, after, block, handles, same, before, ?_⟩
  rw [(fruitless same).1]
  exact behind

end Offsets

end Tracemark
