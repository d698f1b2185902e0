import Tracemark.Proofs.Offsets.Company

/-! Accuracy flags in debug mode.

An element that is stamped on being made gets both flags with its ends. An element that was left bare,
as its lines could not be traced, and that a later block goes on with, gets a start without a flag. So
the flag of a start is missing where, and only where, a block met the element without a start.
-/

set_option autoImplicit false

namespace Tracemark.Offsets

open Tracemark.Dispatch (weight)
open Tracemark.Grammar (members)

variable {settings : Settings} {parser : Reparse} {call : Call} {tracker : Tracker} {lines : Interval}
  {before after session parsed : Session} {tree tree' : Tree} {id parent : NodeId} {bare bare' : Prop}
  {past inner log : List Call} {lead : String} {names : AttributeNames} {document : Text}
  {origin : Origin} {attributes : Attributes} {element : Element} {nodes : List NodeId}
  {differ : Alignment.Differ} {between : List Stage} {compiler : Compiler}

/-! What is written. -/

theorem ends_of_stampEntries (lead : String) (document : Text) (origin : Origin) (attributes : Attributes) :
    let names := AttributeNames.ofLead lead
    let stamped := attributes.insertAll (Stamper.stampEntries ⟨names, some document⟩ origin)
    stamped.get? names.start = some (Text.ofNat origin.start) ∧
      stamped.get? names.startAccurate = some (Text.ofBool origin.startAccurate) ∧
      stamped.get? names.endAccurate = some (Text.ofBool origin.endAccurate) := by
  simp [AttributeNames.ofLead, Stamper.stampEntries, OrderedMap.insertAll, OrderedMap.get?_insert,
    String.append_right_inj]

theorem flags_of_patchEntries (lead : String) (document : Text) (origin : Origin) (attributes : Attributes) :
    let names := AttributeNames.ofLead lead
    let patched :=
      attributes.insertAll (Stamper.patchEntries ⟨names, some document⟩ attributes origin)
    patched.get? names.startAccurate = attributes.get? names.startAccurate ∧
      patched.get? names.endAccurate = some (Text.ofBool origin.endAccurate) := by
  intro names
  simp only [Stamper.patchEntries]
  split <;>
    simp [names, AttributeNames.ofLead, Stamper.extendEntries, OrderedMap.insertAll,
      OrderedMap.get?_insert, String.append_right_inj]

/-! Flags of an element. -/

/-- The flags of an element, of which `bare` says that a block met it without a start. -/
structure Flagged (names : AttributeNames) (bare : Prop) (tree : Tree) (id : NodeId) : Prop where
  startless : tree.value? id names.start = none → tree.value? id names.startAccurate = none
  started : ∀ start, tree.value? id names.start = some start →
    ∃ flag : Option Bool, tree.value? id names.startAccurate = flag.map Text.ofBool ∧
      (flag = none ↔ bare)
  ended : ∀ stop, tree.value? id names.stop = some stop →
    ∃ flag, tree.value? id names.endAccurate = some (Text.ofBool flag)

theorem Flagged.congr (flagged : Flagged names bare tree id)
    (same : ∀ name ∈ names.toList, tree'.value? id name = tree.value? id name)
    (met : ∀ start, tree.value? id names.start = some start → (bare' ↔ bare)) :
    Flagged names bare' tree' id := by
  obtain ⟨startless, started, ended⟩ := flagged
  simp only [AttributeNames.toList, List.forall_mem_cons] at same
  obtain ⟨start, stop, -, startAccurate, endAccurate, -⟩ := same
  constructor
  · rw [start, startAccurate]
    exact startless
  · rw [start, startAccurate]
    intro value held
    obtain ⟨flag, written, none⟩ := started value held
    exact ⟨flag, written, none.trans (met value held).symm⟩
  · rw [stop, endAccurate]
    exact ended

theorem flagged_stamps (member : id ∈ nodes) (valid : id < tree.size) (fresh : ¬bare)
    (document : Text) (origin : Origin) : Flagged (.ofLead lead) bare
      (nodes.foldl (fun tree node =>
        tree.write node (Stamper.stampEntries ⟨.ofLead lead, some document⟩ origin)) tree) id := by
  let stamper : Stamper := ⟨.ofLead lead, some document⟩
  obtain ⟨attributes, written⟩ : ∃ attributes : Attributes, ∀ name,
      (nodes.foldl (fun tree node => tree.write node (stamper.stampEntries origin)) tree).value? id
        name = (attributes.insertAll (stamper.stampEntries origin)).get? name :=
    exists_value?_stamps member valid
  obtain ⟨start, startAccurate, endAccurate⟩ :=
    ends_of_stampEntries lead document origin attributes
  constructor
  · rw [written, start]
    exact nofun
  · intro _ _
    refine ⟨some origin.startAccurate, (written _).trans startAccurate, ?_⟩
    exact iff_of_false nofun fresh
  · exact fun _ _ => ⟨origin.endAccurate, (written _).trans endAccurate⟩

theorem flagged_patch (flagged : Flagged (.ofLead lead) bare tree id)
    (found : tree.get? id = some element) (document : Text) (origin : Origin)
    (met : bare' ↔ bare ∨ tree.value? id (AttributeNames.ofLead lead).start = none) :
    Flagged (.ofLead lead) bare' (tree.write id
      (Stamper.patchEntries ⟨.ofLead lead, some document⟩ element.attributes origin)) id := by
  obtain ⟨startAccurate, endAccurate⟩ :=
    flags_of_patchEntries lead document origin element.attributes
  let stamper : Stamper := ⟨.ofLead lead, some document⟩
  let patched := element.attributes.insertAll (stamper.patchEntries element.attributes origin)
  have start : patched.get? stamper.names.start =
      some ((element.attributes.get? stamper.names.start).getD (Text.ofNat origin.start)) :=
    Stamper.start_of_patchEntries rfl
  have written (name : String) :
      (tree.write id (stamper.patchEntries element.attributes origin)).value? id name =
        patched.get? name :=
    Tree.value?_write_self found
  constructor
  · rw [written, start]
    exact nofun
  · intro _ _
    rw [written, startAccurate, ← Tree.value?_eq found, met]
    cases held : tree.value? id (AttributeNames.ofLead lead).start with
    | none =>
      rw [flagged.startless held]
      exact ⟨none, rfl, iff_of_true rfl (.inr rfl)⟩
    | some value =>
      obtain ⟨flag, flag_eq, none⟩ := flagged.started value held
      exact ⟨flag, flag_eq, none.trans (by simp)⟩
  · exact fun _ _ => ⟨origin.endAccurate, (written _).trans endAccurate⟩

/-! Flags through a run. -/

def Bare (settings : Settings) (log : List Call) (id : NodeId) : Prop :=
  ∃ call ∈ log, call.handler = "offsets" ∧ id < call.session.tree.size ∧
    start? settings call.session.tree id = none

theorem bare_append_of_quiet (quiet : ∀ call ∈ inner, call.handler ≠ "offsets") :
    Bare settings (past ++ inner) id ↔ Bare settings past id := by
  unfold Bare
  constructor
  · rintro ⟨call, member, layer, met⟩
    rcases List.mem_append.1 member with old | new
    · exact ⟨call, old, layer, met⟩
    · exact absurd layer (quiet call new)
  · rintro ⟨call, member, met⟩
    exact ⟨call, List.mem_append_left _ member, met⟩

theorem bare_append_call (layer : call.handler = "offsets")
    (quiet : ∀ call ∈ inner, call.handler ≠ "offsets") :
    Bare settings (past ++ call :: inner) id ↔ Bare settings past id ∨
      id < call.session.tree.size ∧ start? settings call.session.tree id = none := by
  have one : Bare settings [call] id ↔
      id < call.session.tree.size ∧ start? settings call.session.tree id = none := by
    simp [Bare, layer]
  rw [List.append_cons, bare_append_of_quiet quiet, ← one]
  simp only [Bare, List.mem_append, or_and_right, exists_or]

structure FlagsHeld (settings : Settings) (log : List Call) (session : Session) : Prop where
  ordered : session.tree.Ordered
  emitted : ∀ tracker ∈ session.tracker?, ∀ node ∈ tracker.lastEmitted, node < session.tree.size
  met : ∀ id, Bare settings log id → id < session.tree.size
  flagged : ∀ id,
    Flagged (.ofLead settings.attributeLead) (Bare settings log id) session.tree id

theorem FlagsHeld.edits (held : FlagsHeld settings past before)
    (edits : Session.Edits False before after) : FlagsHeld settings past after where
  ordered := edits.tree.ordered held.ordered
  emitted := by
    intro tracker tracked node member
    rw [edits.tracker?] at tracked
    exact Nat.lt_of_lt_of_le (held.emitted tracker tracked node member) edits.tree.size_le
  met id bare := Nat.lt_of_lt_of_le (held.met id bare) edits.tree.size_le
  flagged id := (held.flagged id).congr
    (fun _ member => value?_of_edited edits.tree member id) fun _ _ => Iff.rfl

theorem FlagsHeld.unwritten (held : FlagsHeld settings past call.session)
    (layer : call.handler = "offsets") (quiet : ∀ call ∈ inner, call.handler ≠ "offsets")
    (same : ∀ name ∈ (AttributeNames.ofLead settings.attributeLead).toList,
      tree.value? id name = call.session.tree.value? id name) :
    Flagged (.ofLead settings.attributeLead) (Bare settings (past ++ call :: inner) id) tree id := by
  refine (held.flagged id).congr same fun start there => ?_
  rw [bare_append_call layer quiet]
  refine or_iff_left ?_
  rintro ⟨-, none⟩
  exact absurd (there.symm.trans none) (by simp)

theorem FlagsHeld.flagged_wrote (held : FlagsHeld settings past call.session)
    (layer : call.handler = "offsets") (quiet : ∀ call ∈ inner, call.handler ≠ "offsets")
    (edited : Tree.Edited False call.session.tree tree) {fresh : List NodeId}
    (children : tree.childrenOf call.parent = call.session.tree.childrenOf call.parent ++ fresh)
    (new : ∀ node ∈ fresh, call.session.tree.size ≤ node) {last emitted : Option NodeId}
    (old : ∀ node ∈ last, node < call.session.tree.size)
    (wrote : Wrote ⟨.ofLead settings.attributeLead, some document⟩ tree call.parent last origin fresh
      emitted tree') (id : NodeId) :
    Flagged (.ofLead settings.attributeLead) (Bare settings (past ++ call :: inner) id) tree' id := by
  have value (id : NodeId) : ∀ name ∈ (AttributeNames.ofLead settings.attributeLead).toList,
      tree.value? id name = call.session.tree.value? id name :=
    fun name member => value?_of_edited edited member id
  have met : Bare settings (past ++ call :: inner) id ↔ Bare settings past id ∨
      id < call.session.tree.size ∧ start? settings call.session.tree id = none :=
    bare_append_call layer quiet
  cases fresh with
  | nil =>
    cases wrote with
    | alone _ => exact held.unwritten layer quiet (value id)
    | @merged child element atEnd found =>
      by_cases here : id = child
      · subst here
        have inside : id ∈ call.session.tree.childrenOf call.parent := by
          rw [children, List.append_nil] at atEnd
          exact List.mem_of_getLast? atEnd
        have before : Flagged (.ofLead settings.attributeLead) (Bare settings past id) tree id :=
          (held.flagged id).congr (value id) fun _ _ => Iff.rfl
        refine flagged_patch before found document origin ?_
        rw [met, value id _ List.mem_cons_self]
        exact or_congr_right (and_iff_right (held.ordered.child_lt_size inside))
      · refine held.unwritten layer quiet fun name member => ?_
        exact (Tree.value?_write_of_ne here).trans (value id name member)
  | cons first rest =>
    have other : ∀ node ∈ first :: rest, last ≠ some node := by
      rintro node member rfl
      exact absurd (old node rfl) (Nat.not_lt_of_le (new node member))
    obtain ⟨-, rfl⟩ := wrote.eq_written other
    by_cases member : id ∈ first :: rest
    · have valid : id < tree.size := by
        apply (edited.ordered held.ordered).child_lt_size
        rw [children]
        exact List.mem_append_right _ member
      refine flagged_stamps member valid (fun bare => ?_) document origin
      rcases met.1 bare with earlier | ⟨inside, -⟩
      · exact absurd (held.met id earlier) (Nat.not_lt_of_le (new id member))
      · exact absurd inside (Nat.not_lt_of_le (new id member))
    · refine held.unwritten layer quiet fun name listed => ?_
      exact (value?_stamps_of_not_mem member).trans (value id name listed)

/-- A block keeps the flags in order, when what comes of it comes behind the children that were there. -/
theorem FlagsHeld.taken (debug : settings.debug = true) (held : FlagsHeld settings past call.session)
    (layer : call.handler = "offsets") (quiet : ∀ call ∈ inner, call.handler ≠ "offsets")
    (taken : Taken settings False parser call tracker lines parsed after) {fresh : List NodeId}
    (children : parsed.tree.childrenOf call.parent =
      call.session.tree.childrenOf call.parent ++ fresh)
    (new : ∀ node ∈ fresh, call.session.tree.size ≤ node) :
    FlagsHeld settings (past ++ call :: inner) after := by
  have ordered := taken.edited.ordered held.ordered
  have size_le := taken.edited.size_le
  have old : ∀ node ∈ tracker.lastEmitted, node < call.session.tree.size :=
    held.emitted tracker taken.tracked
  have met (id : NodeId) (bare : Bare settings (past ++ call :: inner) id) : id < parsed.tree.size := by
    rcases (bare_append_call layer quiet).1 bare with earlier | ⟨inside, -⟩
    · exact Nat.lt_of_lt_of_le (held.met id earlier) size_le
    · exact Nat.lt_of_lt_of_le inside size_le
  rcases taken.lost_or_placed with ⟨-, rfl⟩ | ⟨origin, annotated, last, tree, -, wrote, rfl⟩
  · refine ⟨ordered, ?_, met, fun id => held.unwritten layer quiet fun name member =>
      value?_of_edited taken.edited member id⟩
    intro other tracked node member
    rw [Session.tracker?_setTracker] at tracked
    cases tracked
    exact Nat.lt_of_lt_of_le (old node member) size_le
  have older : ∀ node ∈ fresh, node ∉ call.session.tree.childrenOf call.parent := by
    intro node member inside
    exact absurd (held.ordered.child_lt_size inside) (Nat.not_lt_of_le (new node member))
  have stamper : settings.stamper tracker =
      ⟨.ofLead settings.attributeLead, some tracker.index.document⟩ := by
    simp [Settings.stamper, debug]
  rw [children, produced_append older, stamper] at wrote
  refine ⟨wrote.ordered ordered, ?_, fun id bare => ?_,
    held.flagged_wrote layer quiet taken.edited children new old wrote⟩
  · intro other tracked node member
    rw [Session.tracker?_setTracker] at tracked
    cases tracked
    refine Nat.lt_of_lt_of_eq ?_ wrote.size_eq.symm
    rcases Option.or_eq_some_iff.1 member with now | ⟨-, earlier⟩
    · apply ordered.child_lt_size
      rw [children]
      exact List.mem_append_right _ (wrote.mem_of_emitted now)
    · exact Nat.lt_of_lt_of_le (old node earlier) size_le
  · exact Nat.lt_of_lt_of_eq (met id bare) wrote.size_eq.symm

/-! Renders. -/

theorem exists_fresh (traced : Traced differ settings between compiler)
    (ordered : call.session.tree.Ordered)
    (taken : Taken settings False compiler.handlers.parseBlocks call tracker lines parsed after) :
    ∃ fresh, parsed.tree.childrenOf call.parent =
        call.session.tree.childrenOf call.parent ++ fresh ∧
      ∀ node ∈ fresh, call.session.tree.size ≤ node := by
  have size : compiler.handlers.size = 9 := by
    have length := congrArg List.length traced.handlers
    simpa [Registry.items, Registry.size, members] using length
  let busy := call.session.setTracker (tracker.busy lines)
  have tracked : busy.tracker? = some (tracker.busy lines) := Session.tracker?_setTracker _ _
  obtain ⟨grown, ran, grows⟩ := Dispatch.run_wrapped_grows (Crew.plain.tame settings tracked rfl)
    ordered taken.valid (show weight [call.block] + 1 <
      weight [call.block] + compiler.handlers.size + 1 by omega)
  have parsed_eq : parsed = busy.setTree grown := by
    have same := taken.ran
    rw [Handlers.parseBlocks, traced.handlers] at same
    exact Except.ok.inj (same.symm.trans ran)
  obtain ⟨fresh, children, new, -⟩ := grows.children taken.valid
  exact ⟨fresh, parsed_eq ▸ children, new⟩

theorem flagsHeld_kept (traced : Traced differ settings between compiler)
    (debug : settings.debug = true) :
    Kept settings False compiler.handlers.parseBlocks (FlagsHeld settings) := by
  constructor
  · exact fun held => held.ordered.closed
  · exact fun held edits => held.edits edits
  · intro past call held other
    have quiet : ∀ other ∈ [call], other.handler ≠ "offsets" := List.forall_mem_singleton.2 other
    refine ⟨held.ordered, held.emitted, fun id bare => ?_, fun id => ?_⟩
    · exact held.met id ((bare_append_of_quiet quiet).1 bare)
    · exact (held.flagged id).congr (fun _ _ => rfl) fun _ _ => bare_append_of_quiet quiet
  · intro past call inner tracker lines parsed after held layer quiet taken
    obtain ⟨fresh, children, new⟩ := exists_fresh traced held.ordered taken
    exact held.taken debug layer quiet taken children new

theorem NodeSpan.of_ofElement? {span : NodeSpan}
    (read : NodeSpan.ofElement? names id element = some span) :
    span.node = id ∧ (∃ start, element.attributes.get? names.start = some start) ∧
      (∃ stop, element.attributes.get? names.stop = some stop) ∧
      span.startAccurate = (element.attributes.get? names.startAccurate).bind Text.bool? ∧
      span.endAccurate = (element.attributes.get? names.endAccurate).bind Text.bool? := by
  obtain ⟨start, readStart, read⟩ := Option.bind_eq_some_iff.1 read
  obtain ⟨stop, readStop, read⟩ := Option.bind_eq_some_iff.1 read
  obtain ⟨written, there, -⟩ := Option.bind_eq_some_iff.1 readStart
  obtain ⟨written', there', -⟩ := Option.bind_eq_some_iff.1 readStop
  cases read
  exact ⟨rfl, ⟨written, there⟩, ⟨written', there'⟩, rfl, rfl⟩

theorem value?_empty {name : String} : Tree.empty.value? id name = none := by
  cases id <;> rfl

theorem flagsHeld_start (traced : Traced differ settings between compiler) (source : Text) :
    FlagsHeld settings [] (startSession differ settings between source) := by
  have tree := traced.staged.tree_startSession source
  refine ⟨tree ▸ Tree.ordered_empty, ?_, ?_, fun id => ?_⟩
  · intro tracker tracked node member
    cases (Session.tracker?_setTracker _ _).symm.trans tracked
    cases member
  · rintro id ⟨call, member, -⟩
    cases member
  · rw [tree]
    refine ⟨fun _ => value?_empty, ?_, ?_⟩ <;>
      exact fun _ held => absurd (value?_empty.symm.trans held) (by simp)

theorem exists_spans (ordered : tree.Ordered) (lead : String) :
    ∃ spans, collectSpans tree lead = .ok spans ∧ ∀ span ∈ spans, ∃ id element,
      tree.get? id = some element ∧ NodeSpan.ofElement? (.ofLead lead) id element = some span := by
  rw [collectSpans, Tree.descendants, Tree.children_eq_ok ordered.root_lt_size]
  refine ⟨_, rfl, fun span member => ?_⟩
  obtain ⟨id, -, read⟩ := List.mem_filterMap.1 member
  obtain ⟨element, found, read⟩ := Option.bind_eq_some_iff.1 read
  exact ⟨id, element, found, read⟩

/-- The flags of a span tell whether a block met its element without a start. -/
theorem FlagsHeld.span (held : FlagsHeld settings log session) {span : NodeSpan}
    (found : session.tree.get? id = some element)
    (read : NodeSpan.ofElement? (.ofLead settings.attributeLead) id element = some span) :
    span.endAccurate.isSome = true ∧
      (span.startAccurate.isSome = true ↔ ¬Bare settings log span.node) := by
  obtain ⟨rfl, ⟨start, started⟩, ⟨stop, stopped⟩, startAccurate, endAccurate⟩ :=
    NodeSpan.of_ofElement? read
  have flagged := held.flagged span.node
  rw [← Tree.value?_eq found] at started stopped startAccurate endAccurate
  obtain ⟨flag, written, none⟩ := flagged.started start started
  obtain ⟨flag', written'⟩ := flagged.ended stop stopped
  constructor
  · rw [endAccurate, written', Option.bind_some, Text.bool?_ofBool]
    rfl
  · rw [startAccurate, written, Text.bind_bool?_ofBool, ← none, Option.isSome_iff_ne_none]

/-- In debug mode each span has the flag of its end. It has the flag of its start if and only if no block
met its element without a start. -/
theorem spans_flagged (traced : Traced differ settings between compiler)
    (debug : settings.debug = true) (source : Text) :
    ∃ log session spans,
      compiler.calls (layer settings :: Grammar.actors) source = .ok (log, session) ∧
      compiler.render source = .ok session ∧
      collectSpans session.tree settings.attributeLead = .ok spans ∧
      ∀ span ∈ spans, span.endAccurate.isSome = true ∧
        (span.startAccurate.isSome = true ↔ ∀ call ∈ log, call.handler = "offsets" →
          span.node < call.session.tree.size →
          (start? settings call.session.tree span.node).isSome = true) := by
  have company : Company settings False (layer settings :: Grammar.actors) :=
    List.forall_mem_cons.2 ⟨.inl rfl, fun actor member => .inr (beside_grammar actor member)⟩
  obtain ⟨log, session, told, rendered, held⟩ := company.exists_calls traced.staged traced.handlers
    (flagsHeld_kept traced debug) source (flagsHeld_start traced source)
  obtain ⟨spans, collected, each⟩ := exists_spans held.ordered settings.attributeLead
  refine ⟨log, session, spans, told, rendered, collected, fun span member => ?_⟩
  obtain ⟨id, element, found, read⟩ := each span member
  obtain ⟨ended, started⟩ := held.span found read
  refine ⟨ended, started.trans ?_⟩
  simp only [Bare, not_exists, not_and, Option.isSome_iff_ne_none, ne_eq]

/-- A list that starts with an injected item has no flag for the start that a later item brings. -/
theorem spans_flagged_injected :
    let inject : Stage := .ofLines "inject" fun lines => "- x".toList :: [] :: lines
    let compiler := (extension { debug := true } .grammar).addStage 10 inject
    let actors := layer { debug := true } :: Grammar.actors
    ∃ log session, compiler.calls actors "- a".toList = .ok (log, session) ∧
      compiler.render "- a".toList = .ok session ∧
      collectSpans session.tree "data-" = .ok [⟨1, "ul", 0, 3, none, some true⟩] ∧
      ∃ call ∈ log, call.handler = "offsets" ∧ 1 < call.session.tree.size ∧
        start? { debug := true } call.session.tree 1 = none := by
  intro inject compiler actors
  have traced : Traced .shortest { debug := true } [inject] compiler :=
    ⟨rfl, rfl, List.forall_mem_singleton.2 ⟨fun _ _ => rfl, fun _ _ => rfl⟩⟩
  obtain ⟨log, session, spans, told, rendered, collected, flagged⟩ :=
    spans_flagged traced rfl "- a".toList
  have computed : ((compiler.render "- a".toList).bind fun session =>
      collectSpans session.tree "data-").toOption = some [⟨1, "ul", 0, 3, none, some true⟩] := by
    decide +kernel
  rw [rendered] at computed
  change (collectSpans session.tree "data-").toOption = _ at computed
  rw [show collectSpans session.tree "data-" = .ok spans from collected] at computed
  cases computed
  refine ⟨log, session, told, rendered, collected, ?_⟩
  by_contra unmet
  have all := (flagged _ List.mem_cons_self).2.2 fun call member layer inside => by
    by_contra none
    exact unmet ⟨call, member, layer, inside, Option.not_isSome_iff_eq_none.1 none⟩
  cases all

end Tracemark.Offsets
