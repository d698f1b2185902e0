import Tracemark.Proofs.Offsets.Writing
import Tracemark.Proofs.Tree.Descent

/-! The text that is recorded with a range.

Stampers with one document write onto the elements of a tree, each call onto one element and under the
names of the layer. A start is written with an end and the text between them, and the text is written
anew whenever the end is. So an element that has a start has an end as well and the text of just that
range, whichever calls were made before, and the ranges are read back from all such elements.
-/

set_option autoImplicit false

namespace Tracemark

namespace Tree

variable {tree other : Tree} {node : NodeId} {entries : List (String × Text)} {hidden : List String}

theorem descendants_congr (size : other.size = tree.size)
    (children : ∀ id, other.childrenOf id = tree.childrenOf id) (valid : node < tree.size) :
    other.descendants node = tree.descendants node := by
  have walked (fuel : Nat) (stack : List NodeId) : other.walk fuel stack = tree.walk fuel stack := by
    induction fuel generalizing stack with
    | zero => rfl
    | succ fuel ih =>
      cases stack with
      | nil => rfl
      | cons id rest =>
        rw [walk, walk, ih]
        exact congrArg (fun below => id :: tree.walk fuel (below ++ rest)) (children id)
  rw [descendants, descendants, children_eq_ok valid, children_eq_ok (size ▸ valid), children, size]
  exact congrArg Except.ok (walked _ _)

theorem without_write (tree : Tree) (node : NodeId) (covered : ∀ entry ∈ entries, entry.1 ∈ hidden) :
    (tree.write node entries).without hidden = tree.without hidden :=
  ((Matches.of_without hidden tree).write_left covered).eq_without.symm

end Tree

namespace Offsets

/-! Calls. -/

inductive Way where
  | stamp
  | extend
  | patch
  deriving DecidableEq, Repr

structure Writing where
  way : Way
  node : NodeId
  origin : Origin
  deriving DecidableEq, Repr

structure Origin.Fits (origin : Origin) : Prop where
  start : origin.start < UInt64.size
  stop : origin.stop < UInt64.size

structure Writing.Valid (writing : Writing) (tree : Tree) : Prop where
  held : writing.node < tree.size
  fits : writing.origin.Fits

instance (writing : Writing) (tree : Tree) : Decidable (writing.Valid tree) :=
  decidable_of_iff (writing.node < tree.size ∧ writing.origin.start < UInt64.size ∧
      writing.origin.stop < UInt64.size)
    ⟨fun all => ⟨all.1, all.2.1, all.2.2⟩, fun valid => ⟨valid.held, valid.fits.start, valid.fits.stop⟩⟩

namespace Stamper

def perform (stamper : Stamper) (tree : Tree) (writing : Writing) : Except Fault Tree :=
  match writing.way with
  | .stamp => stamper.stamp tree writing.node writing.origin
  | .extend => stamper.extend tree writing.node writing.origin
  | .patch => return (← stamper.patch tree writing.node writing.origin).2

def performAll (stamper : Stamper) (tree : Tree) (writings : List Writing) : Except Fault Tree :=
  writings.foldlM stamper.perform tree

end Stamper

/-! Ranges. -/

/-- Attributes that give a range of a document, and the text of that range. -/
structure Ranged (names : AttributeNames) (document : Text) (value? : String → Option Text)
    (first last : Nat) : Prop where
  start : value? names.start = some (Text.ofNat first)
  stop : value? names.stop = some (Text.ofNat last)
  text : value? names.text = some ((document.slice? first last).getD [])
  fits : first < UInt64.size ∧ last < UInt64.size

def Sound (names : AttributeNames) (document : Text) (value? : String → Option Text) : Prop :=
  (value? names.start).isSome = true → ∃ first last, Ranged names document value? first last

variable {lead : String} {document : Text} {origin : Origin} {attributes : Attributes} {first last : Nat}

theorem ranged_stamp (fits : origin.Fits) (attributes : Attributes) :
    Ranged (.ofLead lead) document
      (attributes.insertAll (Stamper.stampEntries ⟨.ofLead lead, some document⟩ origin)).get?
      origin.start origin.stop := by
  constructor <;>
    simp [Stamper.stampEntries, AttributeNames.ofLead, OrderedMap.insertAll, OrderedMap.get?_insert,
      String.append_right_inj, fits.start, fits.stop]

theorem ranged_extend (started : attributes.get? (AttributeNames.ofLead lead).start =
      some (Text.ofNat first)) (small : first < UInt64.size) (fits : origin.Fits) :
    Ranged (.ofLead lead) document
      (attributes.insertAll
        (Stamper.extendEntries ⟨.ofLead lead, some document⟩ (some first) origin)).get?
      first origin.stop := by
  constructor <;>
    simp_all [Stamper.extendEntries, AttributeNames.ofLead, OrderedMap.insertAll,
      OrderedMap.get?_insert, String.append_right_inj, fits.stop]

theorem sound_extend (sound : Sound (.ofLead lead) document attributes.get?) (fits : origin.Fits) :
    Sound (.ofLead lead) document
      (attributes.insertAll (Stamper.extendEntries ⟨.ofLead lead, some document⟩
        ((attributes.get? (AttributeNames.ofLead lead).start).bind Text.numeral?) origin)).get? := by
  intro started
  rw [OrderedMap.get?_insertAll_of_not_mem _ (Stamper.start_not_mem_extendEntries rfl)] at started
  obtain ⟨first, last, ranged⟩ := sound started
  rw [ranged.start, Option.bind_some, Text.numeral?_ofNat ranged.fits.1]
  exact ⟨first, origin.stop, ranged_extend ranged.start ranged.fits.1 fits⟩

-- A patch is an extension, after a start was written where there was none.
theorem sound_patch (sound : Sound (.ofLead lead) document attributes.get?) (fits : origin.Fits) :
    Sound (.ofLead lead) document
      (attributes.insertAll
        (Stamper.patchEntries ⟨.ofLead lead, some document⟩ attributes origin)).get? := by
  cases start : attributes.get? (AttributeNames.ofLead lead).start with
  | some value =>
    have extended := sound_extend sound fits
    rw [start, Option.bind_some] at extended
    simpa only [Stamper.patchEntries, start] using extended
  | none =>
    intro _
    have started := OrderedMap.get?_insert_self attributes (AttributeNames.ofLead lead).start
      (Text.ofNat origin.start)
    have ranged : Ranged (.ofLead lead) document _ origin.start origin.stop :=
      ranged_extend started fits.start fits
    refine ⟨origin.start, origin.stop, ?_⟩
    simp only [Stamper.patchEntries, start, Text.numeral?_ofNat fits.start]
    exact ranged

/-! Trees. -/

def Recorded (lead : String) (document : Text) (tree : Tree) : Prop :=
  ∀ node, Sound (.ofLead lead) document (tree.value? node)

variable {tree : Tree} {writing : Writing} {writings : List Writing}

theorem Recorded.write {node : NodeId} {element : Element} {entries : List (String × Text)}
    (recorded : Recorded lead document tree) (found : tree.get? node = some element)
    (sound : Sound (.ofLead lead) document (element.attributes.insertAll entries).get?) :
    Recorded lead document (tree.write node entries) := by
  intro other
  by_cases same : other = node
  · subst same
    have written : (tree.write other entries).value? other =
        (element.attributes.insertAll entries).get? := funext fun _ => Tree.value?_write_self found
    rwa [written]
  · have kept : (tree.write node entries).value? other = tree.value? other :=
      funext fun _ => Tree.value?_write_of_ne same
    rw [kept]
    exact recorded other

theorem exists_perform (recorded : Recorded lead document tree) (valid : writing.Valid tree) :
    ∃ entries, (∀ entry ∈ entries, entry.1 ∈ (AttributeNames.ofLead lead).toList) ∧
      Stamper.perform ⟨.ofLead lead, some document⟩ tree writing =
        .ok (tree.write writing.node entries) ∧
      Recorded lead document (tree.write writing.node entries) := by
  obtain ⟨way, node, origin⟩ := writing
  obtain ⟨held, fits⟩ := valid
  obtain ⟨element, found⟩ := Tree.exists_get? held
  have sound : Sound (.ofLead lead) document element.attributes.get? := by
    have here := recorded node
    have values : tree.value? node = element.attributes.get? := funext fun _ => Tree.value?_eq found
    rwa [values] at here
  cases way with
  | stamp =>
    exact ⟨_, Stamper.mem_names_of_mem_stampEntries, Stamper.stamp_eq_ok held,
      recorded.write found fun _ => ⟨_, _, ranged_stamp fits _⟩⟩
  | extend =>
    exact ⟨_, Stamper.mem_names_of_mem_extendEntries, Stamper.extend_eq_ok rfl found,
      recorded.write found (sound_extend sound fits)⟩
  | patch =>
    obtain ⟨had, patched⟩ : ∃ had, Stamper.patch ⟨.ofLead lead, some document⟩ tree node origin =
        .ok (had, _) := Stamper.patch_eq_ok origin rfl found
    refine ⟨_, Stamper.mem_names_of_mem_patchEntries, ?_, recorded.write found (sound_patch sound fits)⟩
    simp only [Stamper.perform, patched]
    rfl

theorem exists_performAll (recorded : Recorded lead document tree)
    (valid : ∀ writing ∈ writings, writing.Valid tree) :
    ∃ after, Stamper.performAll ⟨.ofLead lead, some document⟩ tree writings = .ok after ∧
      Recorded lead document after ∧ after.size = tree.size ∧
      ∀ id, after.childrenOf id = tree.childrenOf id := by
  induction writings generalizing tree with
  | nil => exact ⟨tree, rfl, recorded, rfl, fun _ => rfl⟩
  | cons writing rest ih =>
    rw [List.forall_mem_cons] at valid
    obtain ⟨entries, -, performed, recorded'⟩ := exists_perform recorded valid.1
    have size : (tree.write writing.node entries).size = tree.size := Tree.size_write
    obtain ⟨after, others, recorded'', size', children⟩ := ih recorded' fun other member =>
      ⟨size.symm ▸ (valid.2 other member).held, (valid.2 other member).fits⟩
    refine ⟨after, ?_, recorded'', size'.trans size, fun id => ?_⟩
    · rw [Stamper.performAll, List.foldlM_cons, performed]
      exact others
    · rw [children, Tree.childrenOf_write]

/-! Spans. -/

def hasStart (lead : String) (tree : Tree) (node : NodeId) : Bool :=
  (tree.value? node (AttributeNames.ofLead lead).start).isSome

def spanOf? (lead : String) (tree : Tree) (node : NodeId) : Option NodeSpan :=
  (tree.get? node).bind (NodeSpan.ofElement? (.ofLead lead) node)

theorem exists_ofElement? {element : Element} (node : NodeId)
    (ranged : Ranged (.ofLead lead) document element.attributes.get? first last) :
    ∃ span, NodeSpan.ofElement? (.ofLead lead) node element = some span ∧ span.node = node ∧
      span.start = first ∧ span.stop = last := by
  rw [NodeSpan.ofElement?, ranged.start, ranged.stop, Option.bind_some, Option.bind_some,
    Text.numeral?_ofNat ranged.fits.1, Text.numeral?_ofNat ranged.fits.2]
  exact ⟨_, rfl, rfl, rfl, rfl⟩

theorem spanOf?_cases (recorded : Recorded lead document tree) (node : NodeId) :
    (hasStart lead tree node = true ∧ ∃ span, spanOf? lead tree node = some span ∧ span.node = node ∧
      Ranged (.ofLead lead) document (tree.value? node) span.start span.stop) ∨
    (hasStart lead tree node = false ∧ spanOf? lead tree node = none) := by
  cases found : tree.get? node with
  | none =>
    refine .inr ⟨?_, ?_⟩
    · rw [hasStart, Tree.value?, found]
      rfl
    · rw [spanOf?, found]
      rfl
  | some element =>
    have values : tree.value? node = element.attributes.get? := funext fun _ => Tree.value?_eq found
    have here := recorded node
    rw [values] at here ⊢
    rw [hasStart, spanOf?, values, found, Option.bind_some]
    cases started : (element.attributes.get? (AttributeNames.ofLead lead).start).isSome with
    | true =>
      obtain ⟨first, last, ranged⟩ := here started
      obtain ⟨span, read, named, rfl, rfl⟩ := exists_ofElement? node ranged
      exact .inl ⟨rfl, span, read, named, ranged⟩
    | false =>
      have none : element.attributes.get? (AttributeNames.ofLead lead).start = none := by
        simpa using started
      refine .inr ⟨rfl, ?_⟩
      rw [NodeSpan.ofElement?, none]
      rfl

theorem exists_collected (recorded : Recorded lead document tree) (valid : Tree.root < tree.size) :
    ∃ attached spans, tree.descendants Tree.root = .ok attached ∧ collectSpans tree lead = .ok spans ∧
      spans.map (·.node) = attached.filter (hasStart lead tree) ∧
      ∀ span ∈ spans, Ranged (.ofLead lead) document (tree.value? span.node) span.start span.stop := by
  have listed : ∃ attached, tree.descendants Tree.root = .ok attached := by
    rw [Tree.descendants, Tree.children_eq_ok valid]
    exact ⟨_, rfl⟩
  obtain ⟨attached, listed⟩ := listed
  refine ⟨attached, attached.filterMap (spanOf? lead tree), listed, ?_, ?_, ?_⟩
  · rw [collectSpans, listed]
    rfl
  · clear listed
    induction attached with
    | nil => rfl
    | cons node rest ih =>
      rcases spanOf?_cases recorded node with ⟨started, span, read, named, -⟩ | ⟨none, nothing⟩
      · rw [List.filterMap_cons_some read, List.map_cons, List.filter_cons_of_pos started, ih, named]
      · rw [List.filterMap_cons_none nothing, List.filter_cons_of_neg (by simp [none]), ih]
  · intro span member
    obtain ⟨node, -, read⟩ := List.mem_filterMap.1 member
    rcases spanOf?_cases recorded node with ⟨-, other, read', rfl, ranged⟩ | ⟨-, nothing⟩
    · cases read.symm.trans read'
      exact ranged
    · cases read.symm.trans nothing

/-- Stamps, extensions and patches keep the text of every range, where no element has a start at first.
After any calls and one more, each element with a start has an end and the text between them, and the
ranges of the elements below the root are read back in the order of the document. The last call changes
its own element alone, and no attribute but those of the layer. -/
theorem performAll_recorded (lead : String) (document : Text) {tree : Tree} {writings : List Writing}
    {writing : Writing} (bare : ∀ node, hasStart lead tree node = false)
    (valid : ∀ other ∈ writings ++ [writing], other.Valid tree) :
    ∃ before after attached spans,
      Stamper.performAll ⟨.ofLead lead, some document⟩ tree writings = .ok before ∧
      Stamper.perform ⟨.ofLead lead, some document⟩ before writing = .ok after ∧
      Recorded lead document after ∧
      after.descendants Tree.root = .ok attached ∧
      (tree.Mirrored → tree.Uncircled → attached = tree.below Tree.root) ∧
      collectSpans after lead = .ok spans ∧
      spans.map (·.node) = attached.filter (hasStart lead after) ∧
      (∀ span ∈ spans,
        Ranged (.ofLead lead) document (after.value? span.node) span.start span.stop) ∧
      (∀ other, other ≠ writing.node → after.get? other = before.get? other) ∧
      after.without (AttributeNames.ofLead lead).toList =
        before.without (AttributeNames.ofLead lead).toList := by
  have start : Recorded lead document tree := fun node started =>
    absurd ((bare node).symm.trans started) Bool.false_ne_true
  rw [List.forall_mem_append, List.forall_mem_singleton] at valid
  obtain ⟨before, performed, recorded, size, children⟩ := exists_performAll start valid.1
  obtain ⟨entries, covered, performed', recorded'⟩ :=
    exists_perform recorded ⟨size.symm ▸ valid.2.held, valid.2.fits⟩
  let after : Tree := before.write writing.node entries
  have size' : after.size = tree.size := Tree.size_write.trans size
  have root : Tree.root < tree.size := Nat.zero_lt_of_lt valid.2.held
  obtain ⟨attached, spans, listed, collected, nodes, ranges⟩ :=
    exists_collected recorded' (size'.symm ▸ root)
  refine ⟨before, after, attached, spans, performed, performed', recorded', listed, ?_, collected,
    nodes, ranges, fun other different => Tree.get?_write_of_ne different,
    Tree.without_write before writing.node covered⟩
  -- Calls keep all links, so the elements below the root are those of the tree at first.
  intro mirrored uncircled
  have below := Tree.descendants_eq_below mirrored uncircled root
  rw [← Tree.descendants_congr size' (fun id => Tree.childrenOf_write.trans (children id)) root] at below
  exact Except.ok.inj (listed.symm.trans below)

/-- An element that is extended before it has a start and then patched, and one that is stamped and
extended. -/
theorem performAll_recorded_extended :
    let tree : Tree := ⟨[{ tag := "div", children := [2, 1] }, { tag := "p", parent := some 0 },
      { tag := "pre", parent := some 0 }]⟩
    let document := "ab\n\ncode".toList
    let writings : List Writing :=
      [⟨.extend, 1, 0, 2, true, true⟩, ⟨.stamp, 2, 4, 6, true, false⟩, ⟨.patch, 1, 1, 2, true, true⟩]
    let writing : Writing := ⟨.extend, 2, 0, 8, true, true⟩
    (∀ node, hasStart "data-" tree node = false) ∧
    (∀ other ∈ writings ++ [writing], other.Valid tree) ∧
    ∃ before after attached spans,
      Stamper.performAll ⟨.ofLead "data-", some document⟩ tree writings = .ok before ∧
      Stamper.perform ⟨.ofLead "data-", some document⟩ before writing = .ok after ∧
      Recorded "data-" document after ∧
      after.descendants Tree.root = .ok attached ∧
      (tree.Mirrored → tree.Uncircled → attached = tree.below Tree.root) ∧
      collectSpans after "data-" = .ok spans ∧
      spans.map (·.node) = attached.filter (hasStart "data-" after) ∧
      (∀ span ∈ spans,
        Ranged (.ofLead "data-") document (after.value? span.node) span.start span.stop) ∧
      (∀ other, other ≠ writing.node → after.get? other = before.get? other) ∧
      after.without (AttributeNames.ofLead "data-").toList =
        before.without (AttributeNames.ofLead "data-").toList := by
  intro tree document writings writing
  have bare : ∀ node, hasStart "data-" tree node = false
    | 0 | 1 | 2 | _ + 3 => rfl
  have valid : ∀ other ∈ writings ++ [writing], other.Valid tree := by decide
  exact ⟨bare, valid, performAll_recorded "data-" document bare valid⟩

end Offsets

end Tracemark
