import Tracemark.Proofs.Offsets.Stamping
import Tracemark.Proofs.Tree.Edit

/-! The ways in which an origin is written.

What came of a block decides how its origin is written: on to the last child if nothing came of it, on
to the element stamped last if that alone was moved, and onto new or moved children as a whole. Each way
writes no more than attributes of the layer, and each is told here by the entries that it writes. A
start that is there is written over in the last way only.
-/

set_option autoImplicit false

namespace Tracemark

namespace Tree

variable {tree : Tree} {node other : NodeId} {element : Element} {entries : List (String × Text)}
  {name : String}

theorem value?_eq (found : tree.get? node = some element) :
    tree.value? node name = element.attributes.get? name := by
  rw [value?, found]
  rfl

theorem value?_write_self (found : tree.get? node = some element) :
    (tree.write node entries).value? node name = (element.attributes.insertAll entries).get? name := by
  rw [value?, get?_write_self, found]
  rfl

theorem value?_write_of_ne (different : other ≠ node) :
    (tree.write node entries).value? other name = tree.value? other name := by
  rw [value?, value?, get?_write_of_ne different]

theorem value?_write_of_not_mem (outside : name ∉ entries.map (·.1)) :
    (tree.write node entries).value? other name = tree.value? other name :=
  value?_modify fun element => OrderedMap.get?_insertAll_of_not_mem element.attributes outside

theorem lt_size_of_value? {value : Text} (held : tree.value? node name = some value) :
    node < tree.size := by
  obtain ⟨element, found, -⟩ := Option.bind_eq_some_iff.1 held
  exact lt_size_of_get? found

end Tree

namespace Offsets

variable {lead : String} {document : Option Text} {stamper : Stamper} {tree after : Tree}
  {parent node : NodeId} {lastEmitted emitted : Option NodeId} {origin : Origin} {nodes : List NodeId}
  {element : Element} {attributes : Attributes} {kept : Option Nat}

/-! Entries. -/

namespace Stamper

theorem nodup_keys_extendEntries (names : stamper.names = .ofLead lead) :
    ((stamper.extendEntries kept origin).map (·.1)).Nodup := by
  obtain ⟨_, document⟩ := stamper
  cases names
  cases document <;> simp [extendEntries, String.append_right_inj]

theorem start_not_mem_extendEntries (names : stamper.names = .ofLead lead) :
    stamper.names.start ∉ (stamper.extendEntries kept origin).map (·.1) := by
  obtain ⟨_, document⟩ := stamper
  cases names
  cases document <;> simp [extendEntries, String.append_right_inj]

theorem nodup_keys_patchEntries (names : stamper.names = .ofLead lead) :
    ((stamper.patchEntries attributes origin).map (·.1)).Nodup := by
  unfold patchEntries
  split
  · exact nodup_keys_extendEntries names
  · rw [List.map_cons, List.nodup_cons]
    exact ⟨start_not_mem_extendEntries names, nodup_keys_extendEntries names⟩

theorem start_of_stampEntries (names : stamper.names = .ofLead lead) :
    (attributes.insertAll (stamper.stampEntries origin)).get? stamper.names.start =
      some (Text.ofNat origin.start) := by
  obtain ⟨_, document⟩ := stamper
  cases names
  cases document <;> simp [stampEntries, OrderedMap.insertAll, OrderedMap.get?_insert,
    String.append_right_inj]

theorem start_of_patchEntries (names : stamper.names = .ofLead lead) :
    (attributes.insertAll (stamper.patchEntries attributes origin)).get? stamper.names.start =
      some ((attributes.get? stamper.names.start).getD (Text.ofNat origin.start)) := by
  unfold patchEntries
  cases start : attributes.get? stamper.names.start with
  | some value =>
    simp only [Option.getD_some]
    rw [OrderedMap.get?_insertAll_of_not_mem _ (start_not_mem_extendEntries names), start]
  | none =>
    simp only [Option.getD_none]
    refine (OrderedMap.get?_insertAll_of_not_mem _ (start_not_mem_extendEntries names)).trans ?_
    exact OrderedMap.get?_insert_self _ _ _

end Stamper

/-! Ways. -/

/-- How an origin is written for what came of a block under `parent`. Tells the element that later
blocks may go on with. -/
inductive Wrote (stamper : Stamper) (tree : Tree) (parent : NodeId) (lastEmitted : Option NodeId)
    (origin : Origin) : List NodeId → Option NodeId → Tree → Prop
  | alone : (tree.childrenOf parent).getLast? = none →
    Wrote stamper tree parent lastEmitted origin [] none tree
  | merged {last : NodeId} {element : Element} : (tree.childrenOf parent).getLast? = some last →
    tree.get? last = some element →
    Wrote stamper tree parent lastEmitted origin [] none
      (tree.write last (stamper.patchEntries element.attributes origin))
  | extended {only : NodeId} {element : Element} : lastEmitted = some only →
    tree.get? only = some element →
    Wrote stamper tree parent lastEmitted origin [only] none
      (tree.write only (stamper.extendEntries
        ((element.attributes.get? stamper.names.start).bind Text.numeral?) origin))
  | stamped {first : NodeId} {rest : List NodeId} : (rest = [] → lastEmitted ≠ some first) →
    Wrote stamper tree parent lastEmitted origin (first :: rest) (first :: rest).getLast?
      ((first :: rest).foldl (fun tree node => tree.write node (stamper.stampEntries origin)) tree)

theorem exists_wrote (names : stamper.names = .ofLead lead) (origin : Origin)
    (lastEmitted : Option NodeId) (closed : tree.Closed) (held : parent < tree.size)
    (valid : ∀ node ∈ nodes, node < tree.size) :
    ∃ emitted after, writeOrigin stamper tree parent lastEmitted origin nodes = .ok (emitted, after) ∧
      Wrote stamper tree parent lastEmitted origin nodes emitted after := by
  cases nodes with
  | nil =>
    simp only [writeOrigin, Tree.lastChild?_eq_ok held, bind, Except.bind]
    cases atEnd : (tree.childrenOf parent).getLast? with
    | none => exact ⟨_, _, rfl, .alone atEnd⟩
    | some last =>
      obtain ⟨element, found⟩ := Tree.exists_get? (closed.lt_size (List.mem_of_getLast? atEnd))
      obtain ⟨had, patched⟩ := Stamper.patch_eq_ok origin names found
      simp only [patched]
      exact ⟨_, _, rfl, .merged atEnd found⟩
  | cons first others =>
    cases others with
    | nil =>
      obtain ⟨element, found⟩ := Tree.exists_get? (valid first List.mem_cons_self)
      simp only [writeOrigin]
      split
      · next same =>
        rw [Stamper.extend_eq_ok names found]
        exact ⟨_, _, rfl, .extended same.symm found⟩
      · next other =>
        rw [Stamper.stamp_eq_ok (Tree.lt_size_of_get? found)]
        exact ⟨_, _, rfl, .stamped fun _ same => other same.symm⟩
    | cons second rest =>
      simp only [writeOrigin, Stamper.foldlM_stamp_eq_ok valid, bind, Except.bind]
      exact ⟨_, _, rfl, .stamped fun none => absurd none (List.cons_ne_nil _ _)⟩

namespace Wrote

theorem induction {motive : Tree → Prop}
    (wrote : Wrote stamper tree parent lastEmitted origin nodes emitted after) (start : motive tree)
    (step : ∀ {tree : Tree} (node : NodeId) {entries : List (String × Text)},
      (∀ entry ∈ entries, entry.1 ∈ stamper.names.toList) → motive tree →
        motive (tree.write node entries)) : motive after := by
  cases wrote with
  | alone _ => exact start
  | merged _ _ => exact step _ Stamper.mem_names_of_mem_patchEntries start
  | extended _ _ => exact step _ Stamper.mem_names_of_mem_extendEntries start
  | @stamped first rest _ =>
    induction first :: rest generalizing tree with
    | nil => exact start
    | cons node others ih => exact ih (step node Stamper.mem_names_of_mem_stampEntries start)

variable (wrote : Wrote stamper tree parent lastEmitted origin nodes emitted after)

include wrote

theorem size_eq : after.size = tree.size :=
  wrote.induction (motive := fun after => after.size = tree.size) rfl
    fun _ _ _ same => Tree.size_write.trans same

theorem closed (closed : tree.Closed) : after.Closed :=
  wrote.induction closed fun _ entries _ closed =>
    closed.modify_links (Tree.keepsLinks_insertAll entries)

theorem ordered (ordered : tree.Ordered) : after.Ordered :=
  wrote.induction ordered fun _ entries _ ordered =>
    ordered.modify (Tree.keepsLinks_insertAll entries)

theorem mem_of_emitted (member : node ∈ emitted) : node ∈ nodes := by
  cases wrote with
  | alone _ | merged _ _ | extended _ _ => cases member
  | stamped _ => exact List.mem_of_getLast? member

/-- Without the element stamped last among them, the children that came of a block are stamped. -/
theorem eq_written (other : ∀ node ∈ nodes, lastEmitted ≠ some node) :
    emitted = nodes.getLast? ∧ after = stamper.written tree parent origin nodes := by
  cases wrote with
  | alone none =>
    refine ⟨rfl, ?_⟩
    simp only [Stamper.written, none]
  | merged atEnd found =>
    refine ⟨rfl, ?_⟩
    simp only [Stamper.written, atEnd, found]
    rfl
  | extended same _ => exact absurd same (other _ List.mem_cons_self)
  | stamped _ => exact ⟨rfl, rfl⟩

end Wrote

theorem Stamper.writeOrigin_eq_ok (names : stamper.names = .ofLead lead) (ordered : tree.Ordered)
    (held : parent < tree.size) (valid : ∀ node ∈ nodes, node < tree.size)
    (new : ∀ node ∈ nodes, some node ≠ lastEmitted) :
    writeOrigin stamper tree parent lastEmitted origin nodes =
      .ok (nodes.getLast?, stamper.written tree parent origin nodes) := by
  obtain ⟨emitted, after, written, wrote⟩ :=
    exists_wrote names origin lastEmitted ordered.closed held valid
  obtain ⟨rfl, rfl⟩ := wrote.eq_written fun node member => (new node member).symm
  exact written

/-! Starts. -/

def start? (settings : Settings) (tree : Tree) (node : NodeId) : Option Text :=
  tree.value? node (AttributeNames.ofLead settings.attributeLead).start

theorem value?_of_edited {moves : Prop} {first second : Tree} (edited : Tree.Edited moves first second)
    {name : String} (member : name ∈ (AttributeNames.ofLead lead).toList) (node : NodeId) :
    second.value? node name = first.value? node name :=
  edited.value? (fun same => class_not_mem_ofLead lead (same ▸ member)) node

theorem start?_of_edited {settings : Settings} {moves : Prop} {first second : Tree}
    (edited : Tree.Edited moves first second) (node : NodeId) :
    start? settings second node = start? settings first node :=
  value?_of_edited edited List.mem_cons_self node

theorem exists_value?_stamps (member : node ∈ nodes) (valid : node < tree.size) :
    ∃ attributes : Attributes, ∀ name,
      (nodes.foldl (fun tree node => tree.write node (stamper.stampEntries origin)) tree).value? node
        name = (attributes.insertAll (stamper.stampEntries origin)).get? name := by
  induction nodes generalizing tree with
  | nil => cases member
  | cons first rest ih =>
    by_cases later : node ∈ rest
    · exact ih later (Tree.size_write.symm ▸ valid)
    · have same : node = first := (List.mem_cons.1 member).resolve_right later
      subst same
      obtain ⟨element, found⟩ := Tree.exists_get? valid
      refine ⟨element.attributes, fun name => ?_⟩
      rw [List.foldl_cons, Tree.value?, Stamper.get?_stamps_of_not_mem later, ← Tree.value?,
        Tree.value?_write_self found]

theorem value?_stamps_of_not_mem {name : String} (outside : node ∉ nodes) :
    (nodes.foldl (fun tree node => tree.write node (stamper.stampEntries origin)) tree).value? node
      name = tree.value? node name := by
  rw [Tree.value?, Stamper.get?_stamps_of_not_mem outside, ← Tree.value?]

namespace Wrote

variable (wrote : Wrote stamper tree parent lastEmitted origin nodes emitted after)
  (names : stamper.names = .ofLead lead)

include wrote names

/-- The start of a child that came of a block is written, unless it is the one stamped last and came
alone. -/
theorem start_written (member : node ∈ nodes) (valid : node < tree.size)
    (other : nodes = [node] → lastEmitted ≠ some node) :
    after.value? node stamper.names.start = some (Text.ofNat origin.start) := by
  cases wrote with
  | alone _ | merged _ _ => cases member
  | extended same _ =>
    cases List.mem_singleton.1 member
    exact absurd same (other rfl)
  | stamped _ =>
    obtain ⟨attributes, written⟩ := exists_value?_stamps member valid
    rw [written]
    exact Stamper.start_of_stampEntries names

theorem start_kept {start : Text} (held : tree.value? node stamper.names.start = some start)
    (outside : node ∈ nodes → nodes = [node] ∧ lastEmitted = some node) :
    after.value? node stamper.names.start = some start := by
  cases wrote with
  | alone _ => exact held
  | @merged last element _ found =>
    by_cases same : node = last
    · subst same
      rw [Tree.value?_eq found] at held
      rw [Tree.value?_write_self found, Stamper.start_of_patchEntries names, held]
      rfl
    · exact (Tree.value?_write_of_ne same).trans held
  | extended _ _ =>
    rw [Tree.value?_write_of_not_mem (Stamper.start_not_mem_extendEntries names), held]
  | @stamped first rest other =>
    by_cases member : node ∈ first :: rest
    · obtain ⟨only, same⟩ := outside member
      cases only
      exact absurd same (other rfl)
    · exact (value?_stamps_of_not_mem member).trans held

end Wrote

end Offsets

end Tracemark
