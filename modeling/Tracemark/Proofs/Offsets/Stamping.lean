import Mathlib.Logic.Function.Basic
import Tracemark.Offsets.Attributor
import Tracemark.Proofs.Dispatch.Turns
import Tracemark.Proofs.Tree.Growth
import Tracemark.Proofs.Tree.Matching

/-! What the offsets layer writes onto a tree.

Each writer is given as a pure change of the attributes of one element, so what it does to the content
of a tree, to the other attributes and to the offsets that elements bear can be told apart. The
offsets of a tree are a function from its elements to marks, and a block changes this function on the
elements that it made, or on the last child when it made none.
-/

set_option autoImplicit false

namespace Tracemark

namespace Tree

variable {tree : Tree} {node : NodeId} {element : Element}

def write (tree : Tree) (node : NodeId) (entries : List (String × Text)) : Tree :=
  tree.modify node fun element =>
    { element with attributes := element.attributes.insertAll entries }

theorem keepsLinks_insertAll (entries : List (String × Text)) :
    KeepsLinks fun element => { element with attributes := element.attributes.insertAll entries } :=
  ⟨fun _ => rfl, fun _ => rfl⟩

@[simp] theorem size_write {entries : List (String × Text)} :
    (tree.write node entries).size = tree.size :=
  size_modify

theorem childrenOf_write {entries : List (String × Text)} {other : NodeId} :
    (tree.write node entries).childrenOf other = tree.childrenOf other :=
  childrenOf_modify (keepsLinks_insertAll entries).children

theorem get?_write_self {entries : List (String × Text)} : (tree.write node entries).get? node =
    (tree.get? node).map fun element =>
      { element with attributes := element.attributes.insertAll entries } :=
  get?_modify_self

theorem get?_write_of_ne {entries : List (String × Text)} {other : NodeId}
    (different : other ≠ node) : (tree.write node entries).get? other = tree.get? other :=
  get?_modify_of_ne different

theorem write_write (first second : List (String × Text)) :
    (tree.write node first).write node second = tree.write node (first ++ second) := by
  simp only [write, modify, List.modify_modify_eq]
  congr 2
  funext element
  simp [OrderedMap.insertAll]

theorem setAttribute_eq_ok (valid : node < tree.size) (name : String) (value : Text) :
    tree.setAttribute node name value = .ok (tree.write node [(name, value)]) :=
  update_eq_ok valid

theorem setAttribute_write (valid : node < tree.size) (entries : List (String × Text))
    (name : String) (value : Text) : (tree.write node entries).setAttribute node name value =
      .ok (tree.write node (entries ++ [(name, value)])) := by
  rw [setAttribute_eq_ok (by simpa using valid), write_write]

theorem attribute?_eq_ok (found : tree.get? node = some element) (name : String) :
    tree.attribute? node name = .ok (element.attributes.get? name) := by
  rw [attribute?, element_eq_ok found]
  rfl

theorem Extends.write {parent : NodeId} {before after : Tree} (extended : Extends parent before after)
    (node : NodeId) (entries : List (String × Text)) :
    Extends parent before (after.write node entries) :=
  extended.modify_attributes (keepsLinks_insertAll entries) (fun _ => rfl) fun _ => rfl

theorem Matches.write_left {shift : Nat} {hidden : List String} {left right : Tree}
    (matched : left.Matches shift hidden right) {entries : List (String × Text)}
    (covered : ∀ entry ∈ entries, entry.1 ∈ hidden) :
    (left.write node entries).Matches shift hidden right where
  size := by rw [matched.size, size_write]
  children := by
    intro id
    rw [childrenOf_write]
    exact matched.children id
  element := by
    intro id before free found
    by_cases same : id = node
    · subst same
      rw [get?_write_self] at found
      obtain ⟨held, there, rfl⟩ := Option.map_eq_some_iff.1 found
      obtain ⟨after, here, alike⟩ := matched.element free there
      refine ⟨after, here, alike.tag, alike.text, ?_, alike.parent⟩
      rw [OrderedMap.without_insertAll _ covered]
      exact alike.attributes
    · rw [get?_write_of_ne same] at found
      exact matched.element free found

end Tree

namespace Offsets

variable {tree : Tree} {node : NodeId} {element : Element}

/-! Names. -/

theorem class_not_mem_ofLead (lead : String) : "class" ∉ (AttributeNames.ofLead lead).toList := by
  -- The endings alone are longer than the name.
  have longer (ending : String) (long : 5 < ending.length) : "class" ≠ lead ++ ending := by
    intro same
    have length : "class".length = (lead ++ ending).length := congrArg String.length same
    have five : "class".length = 5 := by decide
    rw [String.length_append] at length
    omega
  simp only [AttributeNames.ofLead, AttributeNames.toList, List.mem_cons, List.not_mem_nil, or_false,
    not_or]
  exact ⟨longer _ (by decide), longer _ (by decide), longer _ (by decide), longer _ (by decide),
    longer _ (by decide)⟩

/-! Writers. -/

namespace Stamper

def stampEntries (stamper : Stamper) (origin : Origin) : List (String × Text) :=
  [(stamper.names.start, Text.ofNat origin.start), (stamper.names.stop, Text.ofNat origin.stop)] ++
    match stamper.document with
    | none => []
    | some document =>
      [(stamper.names.text, (document.slice? origin.start origin.stop).getD []),
        (stamper.names.startAccurate, Text.ofBool origin.startAccurate),
        (stamper.names.endAccurate, Text.ofBool origin.endAccurate)]

def extendEntries (stamper : Stamper) (kept : Option Nat) (origin : Origin) :
    List (String × Text) :=
  (stamper.names.stop, Text.ofNat origin.stop) ::
    match stamper.document with
    | none => []
    | some document =>
      [(stamper.names.text, (document.slice? (kept.getD origin.start) origin.stop).getD []),
        (stamper.names.endAccurate, Text.ofBool origin.endAccurate)]

def patchEntries (stamper : Stamper) (attributes : Attributes) (origin : Origin) :
    List (String × Text) :=
  match attributes.get? stamper.names.start with
  | some start => stamper.extendEntries (Text.numeral? start) origin
  | none =>
    (stamper.names.start, Text.ofNat origin.start) ::
      stamper.extendEntries (Text.numeral? (Text.ofNat origin.start)) origin

variable {stamper : Stamper} {origin : Origin}

theorem mem_names_of_mem_stampEntries :
    ∀ entry ∈ stamper.stampEntries origin, entry.1 ∈ stamper.names.toList := by
  unfold stampEntries
  cases stamper.document <;> simp [AttributeNames.toList]

theorem mem_names_of_mem_extendEntries {kept : Option Nat} :
    ∀ entry ∈ stamper.extendEntries kept origin, entry.1 ∈ stamper.names.toList := by
  unfold extendEntries
  cases stamper.document <;> simp [AttributeNames.toList]

theorem mem_names_of_mem_patchEntries {attributes : Attributes} :
    ∀ entry ∈ stamper.patchEntries attributes origin, entry.1 ∈ stamper.names.toList := by
  unfold patchEntries
  split
  · exact mem_names_of_mem_extendEntries
  · rw [List.forall_mem_cons]
    exact ⟨by simp [AttributeNames.toList], mem_names_of_mem_extendEntries⟩

theorem stamp_eq_ok (valid : node < tree.size) :
    stamper.stamp tree node origin = .ok (tree.write node (stamper.stampEntries origin)) := by
  obtain ⟨names, document⟩ := stamper
  cases document with
  | none =>
    simp only [stamp, Tree.setAttribute_eq_ok valid, Tree.setAttribute_write valid, bind,
      Except.bind]
    rfl
  | some document =>
    simp only [stamp, recordText, Tree.setAttribute_eq_ok valid, Tree.setAttribute_write valid, bind,
      Except.bind]
    rfl

-- The start is read after the end was written, which is another attribute.
theorem extend_write {lead : String} (origin : Origin) (names : stamper.names = .ofLead lead)
    (found : tree.get? node = some element) (entries : List (String × Text)) :
    stamper.extend (tree.write node entries) node origin =
      .ok (tree.write node (entries ++ stamper.extendEntries
        (((element.attributes.insertAll entries).get? stamper.names.start).bind Text.numeral?)
        origin)) := by
  have valid := Tree.lt_size_of_get? found
  obtain ⟨_, document⟩ := stamper
  simp only at names
  subst names
  cases document with
  | none =>
    simp only [extend, Tree.setAttribute_write valid, bind, Except.bind]
    rfl
  | some document =>
    have found' : (tree.write node (entries ++ [((AttributeNames.ofLead lead).stop,
        Text.ofNat origin.stop)])).get? node = some { element with
          attributes := element.attributes.insertAll
            (entries ++ [((AttributeNames.ofLead lead).stop, Text.ofNat origin.stop)]) } := by
      rw [Tree.get?_write_self, found]
      rfl
    have kept : (element.attributes.insertAll
        (entries ++ [((AttributeNames.ofLead lead).stop, Text.ofNat origin.stop)])).get?
          (AttributeNames.ofLead lead).start =
        (element.attributes.insertAll entries).get? (AttributeNames.ofLead lead).start := by
      rw [OrderedMap.insertAll, List.foldl_append]
      exact OrderedMap.get?_insert_of_ne _ _ (by simp [AttributeNames.ofLead, String.append_right_inj])
    simp only [extend, recordText, Tree.setAttribute_write valid, bind, Except.bind,
      Tree.attribute?_eq_ok found', kept, List.append_assoc]
    rfl

theorem extend_eq_ok {lead : String} (names : stamper.names = .ofLead lead)
    (found : tree.get? node = some element) : stamper.extend tree node origin =
      .ok (tree.write node (stamper.extendEntries
        ((element.attributes.get? stamper.names.start).bind Text.numeral?) origin)) := by
  have same : tree.write node [] = tree := by
    change Tree.mk (tree.elements.modify node id) = tree
    rw [List.modify_id]
  have written := extend_write origin names found []
  rwa [same] at written

theorem patch_eq_ok {lead : String} (origin : Origin) (names : stamper.names = .ofLead lead)
    (found : tree.get? node = some element) :
    ∃ had, stamper.patch tree node origin =
      .ok (had, tree.write node (stamper.patchEntries element.attributes origin)) := by
  have valid := Tree.lt_size_of_get? found
  unfold patch patchEntries
  simp only [bind, Except.bind, Tree.attribute?_eq_ok found]
  cases start : element.attributes.get? stamper.names.start with
  | some value =>
    refine ⟨true, ?_⟩
    simp only [Option.isSome_some, if_true, pure, Except.pure, extend_eq_ok names found, start,
      Option.bind_some]
  | none =>
    refine ⟨false, ?_⟩
    have kept : (element.attributes.insertAll
        [(stamper.names.start, Text.ofNat origin.start)]).get? stamper.names.start =
        some (Text.ofNat origin.start) :=
      OrderedMap.get?_insert_self _ _ _
    simp only [Option.isSome_none, Bool.false_eq_true, if_false, Tree.setAttribute_eq_ok valid,
      extend_write origin names found, kept, Option.bind_some]
    rfl

theorem foldlM_stamp_eq_ok {nodes : List NodeId} (valid : ∀ node ∈ nodes, node < tree.size) :
    nodes.foldlM (fun tree node => stamper.stamp tree node origin) tree =
      .ok (nodes.foldl (fun tree node => tree.write node (stamper.stampEntries origin)) tree) := by
  induction nodes generalizing tree with
  | nil => rfl
  | cons node rest ih =>
    rw [List.foldlM_cons, stamp_eq_ok (valid node List.mem_cons_self)]
    exact ih fun other member => by simpa using valid other (List.mem_cons_of_mem _ member)

def written (stamper : Stamper) (tree : Tree) (parent : NodeId) (origin : Origin) :
    List NodeId → Tree
  | [] =>
    match (tree.childrenOf parent).getLast? with
    | none => tree
    | some last =>
      tree.write last
        (stamper.patchEntries (((tree.get? last).map (·.attributes)).getD {}) origin)
  | node :: rest =>
    (node :: rest).foldl (fun tree node => tree.write node (stamper.stampEntries origin)) tree

section Written

variable {parent : NodeId} {nodes : List NodeId}

theorem written_induction {motive : Tree → Prop} (start : motive tree)
    (step : ∀ {tree : Tree} (node : NodeId) {entries : List (String × Text)},
      (∀ entry ∈ entries, entry.1 ∈ stamper.names.toList) → motive tree →
        motive (tree.write node entries)) :
    motive (stamper.written tree parent origin nodes) := by
  unfold written
  split
  · split
    · exact start
    · exact step _ mem_names_of_mem_patchEntries start
  · next first rest =>
    induction first :: rest generalizing tree with
    | nil => exact start
    | cons node others ih => exact ih (step node mem_names_of_mem_stampEntries start)

theorem childrenOf_written (id : NodeId) :
    (stamper.written tree parent origin nodes).childrenOf id = tree.childrenOf id :=
  written_induction (motive := fun after => after.childrenOf id = tree.childrenOf id) rfl
    fun _ _ _ same => Tree.childrenOf_write.trans same

theorem size_written : (stamper.written tree parent origin nodes).size = tree.size :=
  written_induction (motive := fun after => after.size = tree.size) rfl
    fun _ _ _ same => Tree.size_write.trans same

theorem get?_stamps_of_not_mem {other : NodeId} (outside : other ∉ nodes) :
    (nodes.foldl (fun tree node => tree.write node (stamper.stampEntries origin)) tree).get? other =
      tree.get? other := by
  induction nodes generalizing tree with
  | nil => rfl
  | cons node rest ih =>
    rw [List.mem_cons, not_or] at outside
    rw [List.foldl_cons, ih outside.2, Tree.get?_write_of_ne outside.1]

theorem get?_written_of_not_mem {other : NodeId} (children : nodes ⊆ tree.childrenOf parent)
    (outside : other ∉ tree.childrenOf parent) :
    (stamper.written tree parent origin nodes).get? other = tree.get? other := by
  unfold written
  split
  · split
    · rfl
    · next last atEnd =>
      apply Tree.get?_write_of_ne
      rintro rfl
      exact outside (List.mem_of_getLast? atEnd)
  · exact get?_stamps_of_not_mem fun member => outside (children member)

theorem extends_written {top : NodeId} {before : Tree} (extended : Tree.Extends top before tree) :
    Tree.Extends top before (stamper.written tree parent origin nodes) :=
  written_induction extended fun node entries _ extended => extended.write node entries

theorem matches_written {shift : Nat} {right : Tree}
    (matched : tree.Matches shift stamper.names.toList right) :
    (stamper.written tree parent origin nodes).Matches shift stamper.names.toList right :=
  written_induction (motive := fun after => after.Matches shift stamper.names.toList right) matched
    fun _ _ covered matched => matched.write_left covered

end Written

end Stamper

theorem produced_append {before fresh : List NodeId} (new : ∀ node ∈ fresh, node ∉ before) :
    produced before (before ++ fresh) = fresh := by
  unfold produced
  rw [Turn.filter_not_mem_append new]
  cases fresh with
  | nil => simp
  | cons node rest => rfl

/-! Marks. -/

structure Mark where
  start : Nat
  stop : Nat
  startAccurate : Option Bool
  endAccurate : Option Bool
  deriving DecidableEq, Repr

namespace Mark

def made (debug : Bool) (origin : Origin) : Mark where
  start := origin.start
  stop := origin.stop
  startAccurate := if debug then some origin.startAccurate else none
  endAccurate := if debug then some origin.endAccurate else none

def moved (debug : Bool) (origin : Origin) (mark : Option Mark) : Mark where
  start := (mark.map (·.start)).getD origin.start
  stop := origin.stop
  startAccurate := mark.bind (·.startAccurate)
  endAccurate := if debug then some origin.endAccurate else mark.bind (·.endAccurate)

end Mark

/-- The attributes of an element under some names say what a mark says. -/
structure Bears (names : AttributeNames) (element : Element) (mark : Option Mark) : Prop where
  start : element.attributes.get? names.start = mark.map fun mark => Text.ofNat mark.start
  stop : element.attributes.get? names.stop = mark.map fun mark => Text.ofNat mark.stop
  startAccurate : element.attributes.get? names.startAccurate =
    (mark.bind (·.startAccurate)).map Text.ofBool
  endAccurate : element.attributes.get? names.endAccurate =
    (mark.bind (·.endAccurate)).map Text.ofBool

def Marked (names : AttributeNames) (tree : Tree) (marks : NodeId → Option Mark) : Prop :=
  ∀ node element, tree.get? node = some element → Bears names element (marks node)

/-- The marks once a block with an origin has made the children `fresh`, while `last` is the last of
all children. -/
def recorded (debug : Bool) (origin : Origin) (last : Option NodeId) (fresh : List NodeId)
    (marks : NodeId → Option Mark) : NodeId → Option Mark :=
  match fresh, last with
  | [], none => marks
  | [], some last => Function.update marks last (some (.moved debug origin (marks last)))
  | first :: rest, _ => fun node =>
    if node ∈ first :: rest then some (.made debug origin) else marks node

section

variable {lead : String} {document : Option Text} {origin : Origin} {marks : NodeId → Option Mark}

theorem bears_stamp (bears : Bears (.ofLead lead) element none) :
    Bears (.ofLead lead) { element with
      attributes := element.attributes.insertAll (Stamper.stampEntries ⟨.ofLead lead, document⟩ origin) }
      (some (.made document.isSome origin)) := by
  obtain ⟨start, stop, startAccurate, endAccurate⟩ := bears
  cases document <;> constructor <;>
    simp_all [AttributeNames.ofLead, Stamper.stampEntries, OrderedMap.insertAll,
      OrderedMap.get?_insert, String.append_right_inj, Mark.made]

theorem bears_patch {mark : Option Mark} (bears : Bears (.ofLead lead) element mark) :
    Bears (.ofLead lead) { element with
      attributes := element.attributes.insertAll
        (Stamper.patchEntries ⟨.ofLead lead, document⟩ element.attributes origin) }
      (some (.moved document.isSome origin mark)) := by
  obtain ⟨start, stop, startAccurate, endAccurate⟩ := bears
  cases mark <;> cases document <;> constructor <;>
    simp_all [AttributeNames.ofLead, Stamper.patchEntries, Stamper.extendEntries,
      OrderedMap.insertAll, OrderedMap.get?_insert, String.append_right_inj, Mark.moved]

theorem marked_write (marked : Marked (.ofLead lead) tree marks) (node : NodeId)
    (entries : List (String × Text)) (mark : Mark)
    (bears : ∀ element, tree.get? node = some element → Bears (.ofLead lead)
      { element with attributes := element.attributes.insertAll entries } (some mark)) :
    Marked (.ofLead lead) (tree.write node entries) (Function.update marks node (some mark)) := by
  intro other element found
  by_cases same : other = node
  · subst same
    rw [Tree.get?_write_self] at found
    obtain ⟨held, there, rfl⟩ := Option.map_eq_some_iff.1 found
    rw [Function.update_self]
    exact bears held there
  · rw [Tree.get?_write_of_ne same] at found
    rw [Function.update_of_ne same]
    exact marked other element found

theorem marked_stamps {nodes : List NodeId} (marked : Marked (.ofLead lead) tree marks)
    (distinct : nodes.Nodup) (new : ∀ node ∈ nodes, marks node = none) :
    Marked (.ofLead lead)
      (nodes.foldl (fun tree node =>
        tree.write node (Stamper.stampEntries ⟨.ofLead lead, document⟩ origin)) tree)
      (fun node => if node ∈ nodes then some (.made document.isSome origin) else marks node) := by
  induction nodes generalizing tree marks with
  | nil =>
    intro other element found
    simpa using marked other element found
  | cons node rest ih =>
    obtain ⟨notLater, distinct⟩ := List.nodup_cons.1 distinct
    have first := marked_write marked node (Stamper.stampEntries ⟨.ofLead lead, document⟩ origin)
      (.made document.isSome origin)
      fun element found => bears_stamp (new node List.mem_cons_self ▸ marked node element found)
    have others := ih first distinct fun other member => by
      have different : other ≠ node := fun same => notLater (same ▸ member)
      rw [Function.update_of_ne different]
      exact new other (List.mem_cons_of_mem _ member)
    -- No later stamp meets the element again, so the marks may be given all at once.
    have same : (fun other => if other ∈ node :: rest then some (.made document.isSome origin)
          else marks other) =
        fun other => if other ∈ rest then some (.made document.isSome origin)
          else Function.update marks node (some (.made document.isSome origin)) other := by
      funext other
      by_cases same : other = node
      · subst same
        simp [notLater]
      · simp [same, Function.update_of_ne]
    rw [same]
    exact others

theorem marked_written {parent : NodeId} {nodes : List NodeId}
    (marked : Marked (.ofLead lead) tree marks) (distinct : nodes.Nodup)
    (new : ∀ node ∈ nodes, marks node = none) :
    Marked (.ofLead lead) (Stamper.written ⟨.ofLead lead, document⟩ tree parent origin nodes)
      (recorded document.isSome origin (tree.childrenOf parent).getLast? nodes marks) := by
  cases nodes with
  | nil =>
    unfold Stamper.written recorded
    cases atEnd : (tree.childrenOf parent).getLast? with
    | none => exact marked
    | some last =>
      apply marked_write marked last
      intro element found
      rw [found]
      exact bears_patch (marked last element found)
  | cons first rest => exact marked_stamps marked distinct new

end

end Offsets

end Tracemark
